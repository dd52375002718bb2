import ArkSwap.Indexer

/-! What each call of the indexer returns and leaves, whichever calls fail. A
transaction that fails leaves the database it began on, unless its commit was
made and only the answer to it was lost. -/

namespace ArkSwap.GoInternal

open Prog

/-- A condition on memory and database, whatever the number of calls made. -/
def On (P : Indexer → Database → Prop) (s : Sys) : Prop := P s.ix s.db

namespace Indexer

variable {P Q E : Indexer → Database → Prop} {o : Outside}

theorem nextCall_triple {E : Sys → Prop} : Triple (On P) nextCall (fun _ => On P) E := by
  refine Triple.bind (Triple.get (R := fun _ => On P) fun _ hs => hs) fun _ => ?_
  exact Triple.bind (Triple.modify (R := fun _ => On P) fun _ hs => hs) fun _ =>
    Triple.pure fun _ hs => hs

theorem request_triple : Triple (On P) (request o) (fun _ => On P) (On P) := by
  refine Triple.bind nextCall_triple fun k => ?_
  rcases o.error k with _ | e
  · exact Triple.pure fun _ hs => hs
  · exact Triple.fail fun _ hs => hs

theorem orFail_triple {α : Type} {x : Option α} {reason : String} :
    Triple (On P) (orFail x reason) (fun a => On fun ix db => P ix db ∧ x = some a) (On P) := by
  cases x with
  | none => exact Triple.fail fun _ hs => hs
  | some a => exact Triple.pure fun _ hs => ⟨hs, rfl⟩

theorem blockNumber_triple :
    Triple (On P) (blockNumber o)
      (fun head => On fun ix db => P ix db ∧ ∃ k, head = (o.chain k).headNumber) (On P) :=
  Triple.bind request_triple fun k => Triple.pure fun _ hs => ⟨hs, k, rfl⟩

theorem headerByNumber_triple {number : Nat} :
    Triple (On P) (headerByNumber o number)
      (fun b => On fun ix db => P ix db ∧ ∃ k, (o.chain k).headerAt number = some b) (On P) := by
  refine Triple.bind request_triple fun k => ?_
  exact Triple.conseq orFail_triple (fun _ hs => hs) (fun _ _ hs => ⟨hs.1, k, hs.2⟩)
    fun _ hs => hs

theorem filterLogs_triple {fromBlock toBlock : Nat} {addresses : List Address}
    {topics : List Topic} :
    Triple (On P) (filterLogs o fromBlock toBlock addresses topics)
      (fun logs => On fun ix db => P ix db ∧
        ∃ k, logs = (o.chain k).filterLogs fromBlock toBlock addresses topics) (On P) :=
  Triple.bind request_triple fun k => Triple.pure fun _ hs => ⟨hs, k, rfl⟩

theorem query_triple {α : Type} {read : Database → α} :
    Triple (On P) (query o read) (fun a => On fun ix db => P ix db ∧ a = read db) (On P) := by
  refine Triple.bind request_triple fun _ => ?_
  refine Triple.bind (Triple.get (R := fun r s => On P s ∧ r = s) fun _ hs => ⟨hs, rfl⟩) fun r => ?_
  exact Triple.pure fun s hs => ⟨hs.1, congrArg (fun t => read t.db) hs.2⟩

theorem exec_triple {statement : Statement}
    (h : ∀ ix db, P ix db → statement.allowed db = true → Q ix (statement.effect db)) :
    Triple (On P) (exec o statement) (fun _ => On Q) (On P) := by
  refine Triple.bind request_triple fun _ => ?_
  refine Triple.bind (Triple.get (R := fun r s => On P s ∧ r = s) fun _ hs => ⟨hs, rfl⟩) fun r => ?_
  by_cases ha : statement.allowed r.db = true
  · rw [if_pos ha]
    refine Triple.modify fun s hs => h s.ix s.db hs.1 ?_
    rw [← hs.2]
    exact ha
  · rw [if_neg ha]
    exact Triple.fail fun _ hs => hs.1

theorem remember_triple {update : Indexer → Indexer} {E : Sys → Prop}
    (h : ∀ ix db, P ix db → Q (update ix) db) :
    Triple (On P) (remember update) (fun _ => On Q) E :=
  Triple.modify fun s hs => h s.ix s.db hs

/-- What a failure leaves: the memory as it is, and the database as it was when
the transaction began or, for a lost commit, as it was left. -/
theorem inBlockTx_triple {fn : Ix Unit}
    (hfn : ∀ before, Triple (On fun ix db => P ix db ∧ db = before) fn
      (fun _ => On fun ix db => Q ix db ∧ E ix before) (On fun ix _ => E ix before))
    (hP : ∀ ix db, P ix db → E ix db) (hQ : ∀ ix db, Q ix db → E ix db) :
    Triple (On P) (inBlockTx o fn) (fun _ => On Q) (On E) := by
  refine Triple.bind (Triple.conseq request_triple (fun _ hs => hs) (fun _ _ hs => hs)
    fun s hs => hP s.ix s.db hs) fun _ => ?_
  refine Triple.bind (Triple.get (R := fun r s => On P s ∧ r = s) fun _ hs => ⟨hs, rfl⟩) fun r => ?_
  have hbody : Triple (fun s => On P s ∧ r = s) fn
      (fun _ => On fun ix db => Q ix db ∧ E ix r.db) (On fun ix _ => E ix r.db) :=
    Triple.conseq (hfn r.db) (fun s hs => ⟨hs.1, congrArg Sys.db hs.2.symm⟩) (fun _ _ hs => hs)
      fun _ hs => hs
  refine Triple.bind (Triple.onFailure hbody fun s hs => hs) fun _ => ?_
  refine Triple.bind nextCall_triple fun k => ?_
  rcases o.error k with _ | e
  · exact Triple.pure fun s hs => hs.1
  · refine Triple.bind (Triple.modify (R := fun _ => On E) fun s hs => ?_) fun _ =>
      Triple.fail fun _ hs => hs
    by_cases hl : o.lost k = true
    · rw [if_pos hl]
      exact hQ s.ix s.db hs.1
    · rw [if_neg hl]
      exact hs.2

/-- The block a database asks for next. -/
def nextBlock (cfg : Config) (db : Database) : Nat :=
  match db.indexerState[cfg.chainID]? with
  | none => cfg.factoryDeployBlock
  | some st => st.lastProcessedBlock + 1

theorem startBlock_triple {cfg : Config} :
    Triple (On P) (startBlock cfg o) (fun n => On fun ix db => P ix db ∧ n = nextBlock cfg db)
      (On P) := by
  refine Triple.bind query_triple fun st => ?_
  rcases st with _ | st <;>
  · refine Triple.pure fun s hs => ⟨hs.1, ?_⟩
    rw [nextBlock, ← hs.2]

section Growth

variable {cfg : Config} {header : Block} {number : Nat}

theorem nextCall_grows : Grows Sys.calls nextCall :=
  Grows.get.bind fun _ => (Grows.modify fun s : Sys => Nat.le_succ s.calls).bind fun _ => Grows.pure _

theorem request_grows : Grows Sys.calls (request o) := by
  refine nextCall_grows.bind fun k => ?_
  rcases o.error k with _ | e
  · exact Grows.pure k
  · exact Grows.fail e

theorem exec_grows (statement : Statement) : Grows Sys.calls (exec o statement) := by
  refine request_grows.bind fun _ => Grows.get.bind fun s => ?_
  by_cases ha : statement.allowed s.db = true
  · rw [if_pos ha]
    exact Grows.modify fun s : Sys => Nat.le_refl s.calls
  · rw [if_neg ha]
    exact Grows.fail _

theorem headerByNumber_grows : Grows Sys.calls (headerByNumber o number) := by
  refine request_grows.bind fun k => ?_
  rcases (o.chain k).headerAt number with _ | b
  · exact Grows.fail _
  · exact Grows.pure b

theorem remember_grows (update : Indexer → Indexer) : Grows Sys.calls (remember update) :=
  fun s => Nat.le_refl s.calls

theorem fetchTokens_grows (addresses : List Address) (tokens : List Token) :
    Grows Sys.calls (fetchTokens cfg o addresses tokens) := by
  induction addresses generalizing tokens with
  | nil => exact Grows.pure tokens
  | cons a addresses ih =>
    rw [fetchTokens]
    split
    · exact ih tokens
    · have hcall : ∀ method, Grows Sys.calls (callContract o a method) := fun _ =>
        nextCall_grows.bind fun _ => Grows.pure _
      refine Grows.bind (((hcall .name).bind fun _ => (hcall .symbol).bind fun _ =>
        (hcall .decimals).bind fun _ => Grows.pure _)) fun t => ?_
      exact (remember_grows _).bind fun _ => ih _

theorem commit_grows (before : Database) : Grows Sys.calls (commit o before) := by
  refine nextCall_grows.bind fun k => ?_
  rcases o.error k with _ | e
  · exact Grows.pure ()
  · refine (Grows.modify fun s : Sys => ?_).bind fun _ => Grows.fail e
    by_cases hl : o.lost k = true
    · rw [if_pos hl]
    · rw [if_neg hl]

theorem inBlockTx_grows {fn : Ix Unit} (h : Grows Sys.calls fn) : Grows Sys.calls (inBlockTx o fn) := by
  refine request_grows.bind fun _ => Grows.get.bind fun s => ?_
  exact Grows.bind (Grows.onFailure h fun t => by exact Nat.le_refl t.calls) fun _ => commit_grows s.db

theorem writeLog_grows (l : Log) : Grows Sys.calls (writeLog cfg o header l) := by
  refine Grows.get.bind fun s => ?_
  rcases applyLog cfg header s.ix l with _ | ⟨statement, ix⟩
  · exact Grows.pure ()
  · exact (exec_grows statement).bind fun _ => remember_grows _

end Growth

end Indexer

end ArkSwap.GoInternal
