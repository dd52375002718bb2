import ArkSwap.IndexerTick
import ArkSwap.Lib.Run

/-! Runs of an indexer process: Ticks against a network that may reorganise,
calls that may fail, and restarts that load the memory from the database. -/

namespace ArkSwap.GoInternal

open Prog

/-- The process, when it is running, and its database. -/
structure Process where
  memory : Option Indexer
  db : Database

inductive Step where
  | tick (o : Outside)
  | restart (o : Outside)

namespace Process

open Indexer

variable {cfg : Config} {chains : Set Chain} {c : Chain} {full : Prop} {o : Outside}
variable {p : Process} {db : Database}

def initial : Process := { memory := none, db := Database.empty }

/-- A restart whose checks fail leaves no process. -/
def step (cfg : Config) (p : Process) : Step → Process
  | .tick o =>
      match p.memory with
      | none => p
      | some ix =>
          let t := (tick cfg o { ix := ix, db := p.db, calls := 0 }).2
          { memory := some t.ix, db := t.db }
  | .restart o =>
      match preflight cfg o { ix := Indexer.new cfg, db := p.db, calls := 0 } with
      | (.ok _, t) => { memory := some t.ix, db := t.db }
      | (.error _, t) => { memory := none, db := t.db }

def loaded (cfg : Config) (db : Database) : Indexer :=
  ((Indexer.new cfg).loadPairs db.pairs.rows).loadTokens db.tokens.rows

theorem preflight_triple (cfg : Config) (o : Outside) (db : Database) :
    Triple (On (At (Indexer.new cfg) db)) (preflight cfg o) (fun _ => On (At (loaded cfg db) db))
      (On fun _ db' => db' = db) := by
  have hnew : ∀ s, On (At (Indexer.new cfg) db) s → On (fun _ db' => db' = db) s := fun _ hs => hs.2
  have hpairs : ∀ s, On (At ((Indexer.new cfg).loadPairs db.pairs.rows) db) s →
      On (fun _ db' => db' = db) s := fun _ hs => hs.2
  have hrequest : Triple (On (At (Indexer.new cfg) db)) (request o)
      (fun _ => On (At (Indexer.new cfg) db)) (On fun _ db' => db' = db) :=
    Triple.conseq request_triple (fun _ hs => hs) (fun _ _ hs => hs) hnew
  have horFail : ∀ {x : Option Unit} {reason : String}, Triple (On (At (Indexer.new cfg) db))
      (orFail x reason) (fun _ => On (At (Indexer.new cfg) db)) (On fun _ db' => db' = db) :=
    Triple.conseq orFail_triple (fun _ hs => hs) (fun _ _ hs => hs.1) hnew
  refine Triple.bind hrequest fun k => Triple.bind horFail fun _ => ?_
  refine Triple.bind hrequest fun k => Triple.bind horFail fun _ => ?_
  refine Triple.bind hrequest fun _ => ?_
  refine Triple.bind (Triple.conseq query_triple (fun _ hs => hs) (fun _ _ hs => hs) hnew)
    fun pairs => ?_
  refine Triple.bind (remember_triple (Q := At ((Indexer.new cfg).loadPairs db.pairs.rows) db) ?_)
    fun _ => ?_
  · rintro ix' db' ⟨⟨rfl, rfl⟩, rfl⟩
    exact ⟨rfl, rfl⟩
  · refine Triple.bind (Triple.conseq query_triple (fun _ hs => hs) (fun _ _ hs => hs) hpairs)
      fun tokens => remember_triple ?_
    rintro ix' db' ⟨⟨rfl, rfl⟩, rfl⟩
    exact ⟨rfl, rfl⟩

theorem step_restart (cfg : Config) (p : Process) (o : Outside) :
    step cfg p (.restart o) = { memory := none, db := p.db } ∨
      step cfg p (.restart o) = { memory := some (loaded cfg p.db), db := p.db } := by
  obtain ⟨hok, herr⟩ := preflight_triple cfg o p.db ⟨Indexer.new cfg, p.db, 0⟩
    ⟨rfl, rfl⟩
  rw [step]
  rcases hrun : preflight cfg o ⟨Indexer.new cfg, p.db, 0⟩ with ⟨_ | a, t⟩
  · exact Or.inl (by simp only [Process.mk.injEq, true_and]; exact herr _ t hrun)
  · obtain ⟨hix, hdb⟩ := hok a t hrun
    exact Or.inr (by simp only [Process.mk.injEq, Option.some.injEq]; exact ⟨hix, hdb⟩)

theorem loaded_pairs (hkeys : ∀ (a : Address) p, db.pairs[a]? = some p → p.address = a) :
    (loaded cfg db).knownPairs = db.pairs :=
  Table.foldl_insert_rows hkeys

structure Held (full : Prop) (cfg : Config) (chains : Set Chain) (p : Process) : Prop where
  indexed : ∃ g ∈ chains, Indexed full cfg g p.db
  memory : ∀ ix, p.memory = some ix → Indexer.Held full cfg chains ix p.db

theorem loaded_held (hg : g ∈ chains) (hbatch : 0 < cfg.blockBatchSize)
    (h : Indexed full cfg g db) : Indexer.Held full cfg chains (loaded cfg db) db := by
  refine ⟨⟨g, hg, h⟩, fun a p hp => ?_, hbatch, Nat.le_refl _⟩
  rw [loaded_pairs h.keys] at hp
  exact ⟨g, hg, h.isPair hp⟩

/-- The height a Tick reads up to: its cursor, or the confirmed head. -/
def reach (cfg : Config) (db : Database) (o : Outside) : Nat :=
  max (nextBlock cfg db - 1) (safeBlock cfg (o.chain 0).headNumber)

theorem reach_top {st : IndexerState} (hst : p.db.indexerState[cfg.chainID]? = some st) :
    st.lastProcessedBlock ≤ reach cfg p.db o := by
  rw [reach, nextBlock_of_some hst]
  omega

/-- A Tick that starts in good order and sees one chain as far as it reads. -/
structure Orderly (full : Prop) (cfg : Config) (chains : Set Chain) (p : Process) (o : Outside) :
    Prop where
  chain : o.chain 0 ∈ chains
  sees : Sees o (o.chain 0) (reach cfg p.db o)
  covers : full → ∀ ix, p.memory = some ix → Covers ix p.db
  fits : ∀ ix, p.memory = some ix → Fits cfg ix p.db

theorem Held.restart (hbatch : 0 < cfg.blockBatchSize) (h : Held full cfg chains p) :
    Held full cfg chains (step cfg p (.restart o)) := by
  obtain ⟨g, hg, hindexed⟩ := h.indexed
  rcases step_restart cfg p o with heq | heq
  · rw [heq]
    refine ⟨⟨g, hg, hindexed⟩, fun ix hix => ?_⟩
    cases hix
  · rw [heq]
    refine ⟨⟨g, hg, hindexed⟩, fun ix hix => ?_⟩
    obtain rfl := Option.some.inj hix
    exact loaded_held hg hbatch hindexed

theorem Held.tick (hnet : Chain.Network cfg chains) (hshared : SharedDeployment cfg chains)
    (h : Held full cfg chains p) (ho : Orderly full cfg chains p o) :
    Held full cfg chains (step cfg p (.tick o)) := by
  rw [step]
  rcases hm : p.memory with _ | ix
  · exact h
  · have hheld := tick_held hnet hshared ho.chain ho.sees (Nat.le_max_right _ _)
      (fun st hst => reach_top hst) (h.memory ix hm) (fun hfull => ho.covers hfull ix hm)
      (ho.fits ix hm)
    refine ⟨hheld.indexed, fun ix' hix' => ?_⟩
    obtain rfl := Option.some.inj hix'
    exact hheld

end Process

end ArkSwap.GoInternal
