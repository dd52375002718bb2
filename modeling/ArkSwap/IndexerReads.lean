import ArkSwap.IndexerRun

/-! Which calls of a Tick read the chain, and what a Tick does whose reads, the
head apart, see one chain as far as its range goes. -/

namespace ArkSwap.GoInternal

open Prog

/-- The same, but for the chain that each call sees. -/
def Outside.showing (o : Outside) (chain : Nat → Chain) : Outside := { o with chain := chain }

namespace Indexer

variable {cfg : Config} {o : Outside} {c : Chain} {chains : Set Chain} {full : Prop}
variable {chain : Nat → Chain} {lo hi : Nat} {ix : Indexer} {db : Database}

theorem fetchTokens_showing (addresses : List Address) (tokens : List Token) :
    fetchTokens cfg (o.showing chain) addresses tokens = fetchTokens cfg o addresses tokens := by
  induction addresses generalizing tokens with
  | nil => rfl
  | cons a addresses ih =>
    rw [fetchTokens, fetchTokens]
    split
    · exact ih tokens
    · exact congrArg (fetchToken cfg o a >>= ·) (funext fun t => congrArg _ (funext fun _ => ih _))

section Alike

theorem query_grows {α : Type} (read : Database → α) : Grows Sys.calls (query o read) :=
  request_grows.bind fun _ => Grows.get.bind fun _ => Grows.pure _

theorem forEach_exec_grows (statements : List Statement) :
    Grows Sys.calls (Prog.forEach (exec o) statements) := Grows.forEach exec_grows statements

theorem writeBlock_grows (header : Block) (number : Nat) (tokens : List Token) (logs : List Log) :
    Grows Sys.calls (writeBlock cfg o header number tokens logs) := by
  refine (exec_grows _).bind fun _ => (Grows.forEach (fun t => exec_grows _) tokens).bind fun _ => ?_
  refine (Grows.forEach writeLog_grows logs).bind fun _ => Grows.bind ?_ fun _ => exec_grows _
  exact Grows.get.bind fun s => Grows.forEach (fun _ => exec_grows _) _

theorem inBlockTx_alike {fn fn' : Ix Unit} (h : Alike Sys.calls lo hi fn fn') :
    Alike Sys.calls lo hi (inBlockTx o fn) (inBlockTx (o.showing chain) fn') := by
  refine (Alike.refl request_grows).bind fun _ => (Alike.refl Grows.get).bind fun s => ?_
  exact Alike.bind (h.onFailure fun t => by rfl) fun _ => Alike.refl (commit_grows s.db)

variable (hsame : ∀ k, lo ≤ k → k < hi → chain k = o.chain k)
include hsame

/-- Another chain outside the calls that a program makes does not matter to it. -/
theorem request_alike {α : Type} (read : Chain → Nat → Ix α) (hread : ∀ c k, Grows Sys.calls (read c k)) :
    Alike Sys.calls lo hi (request o >>= fun k => read (o.chain k) k)
      (request (o.showing chain) >>= fun k => read (chain k) k) := by
  refine ⟨request_grows.bind fun k => hread _ k, fun s hlo hhi => ?_⟩
  have hrequest : request (o.showing chain) = request o := rfl
  rw [hrequest]
  rcases hs : request o s with ⟨e | k, t⟩
  · rw [bind_of_error _ hs, bind_of_error _ hs]
  · rw [bind_of_ok _ hs] at hhi
    obtain ⟨rfl, hcalls⟩ : k = s.calls ∧ t.calls = s.calls + 1 := by
      simp only [request, nextCall, Prog.get, Prog.modify, bind, pure] at hs
      rcases he : o.error s.calls with _ | e
      · simp only [he, Prod.mk.injEq, Except.ok.injEq] at hs
        exact ⟨hs.1.symm, by rw [← hs.2]⟩
      · simp only [he, Prog.fail] at hs
        cases hs
    have hle := hread (o.chain s.calls) s.calls t
    rw [bind_of_ok _ hs, bind_of_ok _ hs, hsame s.calls hlo (by omega)]

theorem headerByNumber_alike (number : Nat) :
    Alike Sys.calls lo hi (headerByNumber o number) (headerByNumber (o.showing chain) number) := by
  refine request_alike hsame (fun c _ => orFail (c.headerAt number) "not found") fun c k => ?_
  rcases c.headerAt number with _ | b
  · exact Grows.fail _
  · exact Grows.pure b

theorem filterLogs_alike (fromBlock toBlock : Nat) (addresses : List Address) (topics : List Topic) :
    Alike Sys.calls lo hi (filterLogs o fromBlock toBlock addresses topics)
      (filterLogs (o.showing chain) fromBlock toBlock addresses topics) :=
  request_alike hsame (fun c _ => pure (c.filterLogs fromBlock toBlock addresses topics)) fun _ _ =>
    Grows.pure _

theorem fetchLogs_alike (fromBlock toBlock : Nat) :
    Alike Sys.calls lo hi (fetchLogs cfg o fromBlock toBlock)
      (fetchLogs cfg (o.showing chain) fromBlock toBlock) := by
  refine (filterLogs_alike hsame _ _ _ _).bind fun factoryLogs => (Alike.refl Grows.get).bind fun s => ?_
  dsimp only
  split
  · exact Alike.refl (Grows.pure _)
  · exact (filterLogs_alike hsame _ _ _ _).bind fun _ => Alike.refl (Grows.pure _)

theorem processBlock_alike (number : Nat) (logs : List Log) :
    Alike Sys.calls lo hi (processBlock cfg o number logs) (processBlock cfg (o.showing chain) number logs) := by
  refine (headerByNumber_alike hsame number).bind fun header => ?_
  rw [fetchTokens_showing]
  refine (Alike.refl (fetchTokens_grows _ [])).bind fun tokens => inBlockTx_alike ?_
  exact Alike.refl (writeBlock_grows header number tokens logs)

theorem walkBack_alike (n : Nat) :
    Alike Sys.calls lo hi (walkBack cfg o n) (walkBack cfg (o.showing chain) n) := by
  induction n with
  | zero => exact Alike.refl (Grows.pure 0)
  | succ n ih =>
    rw [walkBack, walkBack]
    split
    · exact Alike.refl (Grows.pure _)
    · refine (Alike.refl (query_grows _)).bind fun stored => ?_
      rcases stored with _ | stored
      · exact ih
      · refine (headerByNumber_alike hsame n).bind fun h => ?_
        split
        · exact Alike.refl (Grows.pure n)
        · exact ih

theorem recover_alike (st : IndexerState) :
    Alike Sys.calls lo hi (recover cfg o st) (recover cfg (o.showing chain) st) := by
  refine (walkBack_alike hsame _).bind fun ancestor => Alike.bind (inBlockTx_alike ?_) fun _ => ?_
  · exact (Alike.refl (forEach_exec_grows _)).bind fun _ =>
      (headerByNumber_alike hsame ancestor).bind fun _ => Alike.refl (exec_grows _)
  · exact Alike.refl ((remember_grows _).bind fun _ => (query_grows _).bind fun _ => remember_grows _)

end Alike

section Window

theorem query_up {α : Type} {read : Database → α} {s t : Sys} {a : α}
    (h : query o read s = (.ok a, t)) : s.calls + 1 ≤ t.calls := by
  simp only [query, request, nextCall, Prog.get, Prog.modify, bind, pure] at h
  rcases he : o.error s.calls with _ | e
  · simp only [he, Prod.mk.injEq] at h
    rw [← h.2]
  · simp only [he, Prog.fail] at h
    cases h

variable (cfg o)

/-- What a Tick does from the state at its cursor on, up to its last read of the chain: its
value is where the cursor is to go then. -/
def readRange (safe : Nat) : Ix (Option (Nat × Block)) := do
  checkReorg cfg o
  let fromBlock ← startBlock cfg o
  if safe < fromBlock then pure none
  else do
    let s ← Prog.get
    let toBlock := rangeEnd fromBlock s.ix.batchSize safe
    let fetched ← Prog.attempt (fetchLogs cfg o fromBlock toBlock)
    match fetched with
    | .error e => do
        refused e
        pure none
    | .ok logs => do
        Prog.forEach (fun bn => processBlock cfg o bn ((sortLogs logs).filter fun l => l.blockNumber = bn))
          (blockNums (sortLogs logs))
        let head ← headerByNumber o toBlock
        pure (some (toBlock, head))

def tickReads : Ix (Option (Nat × Block)) := do
  let head ← blockNumber o
  readRange cfg o (safeBlock cfg head)

def closeRange : Option (Nat × Block) → Ix Unit
  | none => pure ()
  | some (toBlock, head) => inBlockTx o (setCursor cfg o toBlock head)

variable {cfg o}

theorem readRange_close (safe : Nat) : (readRange cfg o safe >>= closeRange cfg o) =
    (checkReorg cfg o >>= fun _ => advance cfg o safe) := by
  rw [readRange, bind_assoc]
  refine bind_congr fun _ => ?_
  rw [advance, bind_assoc]
  refine bind_congr fun fromBlock => ?_
  split
  · exact pure_bind _ _
  · rw [bind_assoc]
    refine bind_congr fun s => ?_
    rw [processRange, bind_assoc]
    refine bind_congr fun fetched => ?_
    rcases fetched with e | logs
    · dsimp only
      rw [bind_assoc]
      exact bind_pure _
    · dsimp only
      rw [indexLogs, bind_assoc]
      refine bind_congr fun _ => ?_
      rw [bind_assoc]
      exact bind_congr fun head => pure_bind _ _

theorem tick_eq_reads : tick cfg o = (tickReads cfg o >>= closeRange cfg o) := by
  rw [tickReads, bind_assoc]
  exact bind_congr fun head => (readRange_close _).symm

/-- The first call is the one that reads the cursor's state from the database. -/
theorem readRange_alike (hsame : ∀ k, lo + 1 ≤ k → k < hi → chain k = o.chain k) (safe : Nat) :
    Alike Sys.calls lo hi (readRange cfg o safe) (readRange cfg (o.showing chain) safe) := by
  rw [readRange, readRange, checkReorg, checkReorg, bind_assoc, bind_assoc]
  have hup : ∀ s a t, lo ≤ Sys.calls s →
      query o (fun db => db.indexerState[cfg.chainID]?) s = (.ok a, t) → lo + 1 ≤ Sys.calls t :=
    fun s _ t hlo h => Nat.le_trans (Nat.succ_le_succ hlo) (query_up h)
  refine (Alike.refl (query_grows _)).bind_up hup fun st => Alike.bind ?_ fun _ => ?_
  · rcases st with _ | st
    · exact Alike.refl (Grows.pure ())
    · refine (headerByNumber_alike hsame _).bind fun current => ?_
      split
      · exact Alike.refl (Grows.pure ())
      · exact recover_alike hsame st
  · refine (Alike.refl ((query_grows _).bind fun st => ?_)).bind fun fromBlock => ?_
    · rcases st with _ | st <;> exact Grows.pure _
    · split
      · exact Alike.refl (Grows.pure none)
      · refine (Alike.refl Grows.get).bind fun s => (fetchLogs_alike hsame _ _).attempt.bind fun fetched => ?_
        rcases fetched with e | logs
        · refine Alike.refl (Grows.bind (Grows.get.bind fun s => ?_) fun _ => Grows.pure none)
          split
          · exact remember_grows _
          · exact Grows.fail e
        · refine Alike.bind (Alike.forEach (fun bn => processBlock_alike hsame bn _) _) fun _ => ?_
          exact (headerByNumber_alike hsame _).bind fun head => Alike.refl (Grows.pure _)

theorem closeRange_showing : closeRange cfg (o.showing chain) = closeRange cfg o := by
  funext range
  rcases range with _ | ⟨toBlock, head⟩ <;> rfl

theorem blockNumber_zero (ix : Indexer) (db : Database) :
    blockNumber o ⟨ix, db, 0⟩ = (.ok (o.chain 0).headNumber, ⟨ix, db, 1⟩) ∨
      ∃ e, blockNumber o ⟨ix, db, 0⟩ = (.error e, ⟨ix, db, 1⟩) := by
  simp only [blockNumber, request, nextCall, Prog.get, Prog.modify, bind, pure]
  rcases he : o.error 0 with _ | e
  · exact .inl rfl
  · exact .inr ⟨e, rfl⟩

/-- A Tick does the same whatever the chain is before it looks at its cursor and after its
last read. -/
theorem tick_showing (hhead : chain 0 = o.chain 0)
    (hread : ∀ k, 2 ≤ k → k < (tickReads cfg o ⟨ix, db, 0⟩).2.calls → chain k = o.chain k) :
    tick cfg (o.showing chain) ⟨ix, db, 0⟩ = tick cfg o ⟨ix, db, 0⟩ := by
  have hfirst : blockNumber (o.showing chain) ⟨ix, db, 0⟩ = blockNumber o ⟨ix, db, 0⟩ := by
    simp only [blockNumber, request, nextCall, Prog.get, Prog.modify, bind, pure, Outside.showing]
    rcases o.error 0 with _ | e
    · simp only [hhead]
    · rfl
  have hreads : tickReads cfg (o.showing chain) ⟨ix, db, 0⟩ = tickReads cfg o ⟨ix, db, 0⟩ := by
    rcases blockNumber_zero (o := o) ix db with hok | ⟨e, herr⟩
    · have hrest := bind_of_ok (fun head => readRange cfg o (safeBlock cfg head)) hok
      change tickReads cfg o ⟨ix, db, 0⟩ = _ at hrest
      have hrest' := bind_of_ok (fun head => readRange cfg (o.showing chain) (safeBlock cfg head))
        (hfirst.trans hok)
      rw [hrest] at hread
      exact hrest'.trans (((readRange_alike hread _).same _ (Nat.le_refl 1) (Nat.le_refl _)).trans
        hrest.symm)
    · exact (bind_of_error _ (hfirst.trans herr)).trans (bind_of_error _ herr).symm
  rw [tick_eq_reads, tick_eq_reads, closeRange_showing]
  simp only [bind, hreads]

end Window

section Range

variable {top n : Nat}

theorem walkBack_le {P : Indexer → Database → Prop} :
    Triple (On P) (walkBack cfg o n) (fun m => On fun ix db => P ix db ∧ m ≤ n) (On P) := by
  induction n with
  | zero => exact Triple.pure fun s hs => ⟨hs, Nat.le_refl _⟩
  | succ n ih =>
    have hrest : Triple (On P) (walkBack cfg o n) (fun m => On fun ix db => P ix db ∧ m ≤ n + 1)
        (On P) :=
      Triple.conseq ih (fun _ hs => hs) (fun m s hs => ⟨hs.1, Nat.le_succ_of_le hs.2⟩) fun _ hs => hs
    rw [walkBack]
    by_cases hle : n + 1 ≤ cfg.factoryDeployBlock
    · rw [if_pos hle]
      exact Triple.pure fun s hs => ⟨hs, Nat.le_refl _⟩
    · rw [if_neg hle]
      refine Triple.bind query_triple fun stored => ?_
      rcases stored with _ | stored
      · exact Triple.conseq hrest (fun s hs => hs.1) (fun _ _ hs => hs) fun _ hs => hs
      · refine Triple.bind (Triple.conseq headerByNumber_triple (fun _ hs => hs.1) (fun _ _ hs => hs)
          fun s hs => hs) fun h => ?_
        by_cases hh : h.hash = stored
        · rw [if_pos hh]
          exact Triple.pure fun s hs => ⟨hs.1, Nat.le_succ n⟩
        · rw [if_neg hh]
          exact Triple.conseq hrest (fun s hs => hs.1) (fun _ _ hs => hs) fun _ hs => hs

theorem reloadPairs_batch {D : Database → Prop} {b : Nat} :
    Triple (On fun ix db => ix.batchSize = b ∧ D db) (reloadPairs o)
      (fun _ => On fun ix db => ix.batchSize = b ∧ D db) fun _ => True := by
  refine Triple.bind (remember_triple (Q := fun ix db => ix.batchSize = b ∧ D db) ?_) fun _ => ?_
  · exact fun ix db h => h
  · refine Triple.bind (Triple.conseq query_triple (fun _ hs => hs) (fun _ _ hs => hs)
      fun _ _ => True.intro) fun pairs => remember_triple ?_
    exact fun ix db h => h.1

/-- A check moves the cursor back, if at all. -/
theorem checkReorg_next : Triple (On (At ix db)) (checkReorg cfg o)
    (fun _ => On fun ix' db' => ix'.batchSize = ix.batchSize ∧ nextBlock cfg db' ≤ nextBlock cfg db)
    fun _ => True := by
  refine Triple.bind (Triple.conseq query_triple (fun _ hs => hs) (fun _ _ hs => hs)
    fun _ _ => True.intro) fun st => ?_
  have hsame : ∀ s, On (At ix db) s → On (fun ix' db' => ix'.batchSize = ix.batchSize ∧
      nextBlock cfg db' ≤ nextBlock cfg db) s := by
    rintro s ⟨hix, hdb⟩
    rw [On, hix, hdb]
    exact ⟨rfl, Nat.le_refl _⟩
  rcases st with _ | st
  · exact Triple.pure fun s hs => hsame s hs.1
  · refine Triple.bind (Triple.conseq headerByNumber_triple (fun _ hs => hs) (fun _ _ hs => hs)
      fun _ _ => True.intro) fun current => ?_
    rintro s ⟨⟨hat, hst⟩, -⟩
    rw [hat.2] at hst
    split
    · refine Triple.pure (P := On (At ix db)) (fun t ht => ?_) s hat
      exact hsame t ht
    · refine Triple.bind (Triple.conseq (walkBack_le (P := At ix db)) (fun _ hs => hs)
        (fun _ _ hs => hs) fun _ _ => True.intro) (fun m => ?_) s hat
      rintro t ⟨ht, hm⟩
      refine Triple.bind (Q := fun _ => On fun ix' db' => ix'.batchSize = ix.batchSize ∧
        nextBlock cfg db' ≤ nextBlock cfg db) (Triple.conseq (rollBackTo_triple ix db) (fun _ hs => hs)
          (fun _ r hr => ?_) fun _ _ => True.intro) (fun _ => reloadPairs_batch) t ht
      obtain ⟨hix, db₁, k, b, -, -, hdb⟩ := hr
      rw [On, hix, hdb, nextBlock_of_some (cursorAt_effect cfg m b db₁), nextBlock_of_some hst.symm]
      exact ⟨rfl, Nat.succ_le_succ hm⟩

/-- The height up to which a Tick reads blocks: its cursor, or the end of the next range. -/
def rangeTop (cfg : Config) (ix : Indexer) (db : Database) (head : Nat) : Nat :=
  max (nextBlock cfg db - 1) (min (nextBlock cfg db + ix.batchSize - 1) (safeBlock cfg head))

theorem cursor_le_rangeTop {st : IndexerState} {head : Nat}
    (hst : db.indexerState[cfg.chainID]? = some st) : st.lastProcessedBlock ≤ rangeTop cfg ix db head := by
  rw [rangeTop, nextBlock_of_some hst]
  omega

theorem rangeEnd_le_rangeTop {ix' : Indexer} {db' : Database} {head : Nat}
    (hbatch : ix'.batchSize = ix.batchSize) (hnext : nextBlock cfg db' ≤ nextBlock cfg db)
    (hfits : Fits cfg ix' db') (hpos : 0 < ix'.batchSize)
    (hsafe : nextBlock cfg db' ≤ safeBlock cfg head) :
    rangeEnd (nextBlock cfg db') ix'.batchSize (safeBlock cfg head) ≤ rangeTop cfg ix db head := by
  have hend : (nextBlock cfg db' + ix'.batchSize + (2 ^ 64 - 1)) % 2 ^ 64 =
      nextBlock cfg db' + ix'.batchSize - 1 := by
    rw [Fits] at hfits
    omega
  rw [rangeEnd, hend, rangeTop]
  split <;> omega

/-- Where a Tick reads the head is of no account to what it then indexes. -/
theorem tick_held_after_head (hnet : Chain.Network cfg chains) (hshared : SharedDeployment cfg chains)
    (hc : c ∈ chains)
    (hsees : ∀ k, 0 < k → ∀ m ≤ rangeTop cfg ix db (o.chain 0).headNumber, (o.chain k)[m]? = (c)[m]?)
    (hheld : Held full cfg chains ix db) (hcovers : full → Covers ix db) (hfits : Fits cfg ix db) :
    On (Held full cfg chains) (tick cfg o ⟨ix, db, 0⟩).2 := by
  rcases blockNumber_zero (o := o) ix db with hok | ⟨e, herr⟩
  · have hgoes : tick cfg o ⟨ix, db, 0⟩ = (checkReorg cfg o >>= fun _ =>
        advance cfg o (safeBlock cfg (o.chain 0).headNumber)) ⟨ix, db, 1⟩ := bind_of_ok _ hok
    -- From here on the Tick goes as if the head had been read on this chain too.
    let o' := o.showing fun k => if k = 0 then c else o.chain k
    have hsame : ∀ k, 1 + 1 ≤ k → k < (readRange cfg o (safeBlock cfg (o.chain 0).headNumber)
        ⟨ix, db, 1⟩).2.calls → (if k = 0 then c else o.chain k) = o.chain k :=
      fun k hk _ => if_neg (by omega)
    have hreads := (readRange_alike hsame _).same ⟨ix, db, 1⟩ (Nat.le_refl 1) (Nat.le_refl _)
    have hclose : closeRange cfg o' = closeRange cfg o := closeRange_showing
    have hsees' : Sees o' c (rangeTop cfg ix db (o.chain 0).headNumber) := by
      intro k m hm
      change (if k = 0 then c else o.chain k)[m]? = (c)[m]?
      split
      · rfl
      · exact hsees k (by omega) m hm
    have hgoes' : tick cfg o ⟨ix, db, 0⟩ = (checkReorg cfg o' >>= fun _ =>
        advance cfg o' (safeBlock cfg (o.chain 0).headNumber)) ⟨ix, db, 1⟩ := by
      rw [hgoes, ← readRange_close, ← readRange_close, hclose]
      change _ = (readRange cfg (o.showing _) _ >>= _) _
      simp only [bind, hreads]
    have hcheck := (checkReorg_triple hnet hshared hc hsees' hheld hcovers hfits
      fun st hst => cursor_le_rangeTop hst).and checkReorg_next
    have htick := Triple.bind (Triple.conseq hcheck (fun _ hs => hs) (fun _ _ hs => hs)
      fun s hs => hs.1) fun _ => Triple.conseq (advance_seen (safeBlock cfg (o.chain 0).headNumber)
        hnet hc hsees' Kept.trivial Left.trivial) (fun s hs => ⟨⟨hs.1, True.intro⟩, fun hsafe =>
          rangeEnd_le_rangeTop hs.2.1 hs.2.2 hs.1.fits hs.1.batch.1 hsafe⟩) (fun _ _ hs => hs.1)
            fun _ hs => hs.1
    rw [hgoes']
    exact htick.state ⟨rfl, rfl⟩
  · have hstops : tick cfg o ⟨ix, db, 0⟩ = (.error e, ⟨ix, db, 1⟩) := bind_of_error _ herr
    rw [hstops]
    exact hheld

end Range

end Indexer

namespace Process

open Indexer

variable {cfg : Config} {chains : Set Chain} {full : Prop} {o : Outside} {p : Process} {ix : Indexer}
variable {first last : Nat}

/-- Apart from the head, a Tick reads the chain only in its calls from one on and before
another: what the chain is at any other call makes no difference to it. -/
def ReadsWithin (cfg : Config) (p : Process) (o : Outside) (first last : Nat) : Prop :=
  ∀ chain : Nat → Chain, chain 0 = o.chain 0 → (∀ k, first ≤ k → k < last → chain k = o.chain k) →
    step cfg p (.tick (o.showing chain)) = step cfg p (.tick o)

/-- Every Tick reads the chain only from the header at its cursor to that at the range's end. -/
theorem readsWithin_tick (hm : p.memory = some ix) :
    ReadsWithin cfg p o 2 (tickReads cfg o ⟨ix, p.db, 0⟩).2.calls := by
  intro chain hhead hread
  simp only [step, hm, tick_showing hhead hread]

theorem ReadsWithin.mono {first' last' : Nat} (h : ReadsWithin cfg p o first last)
    (hfirst : first' ≤ first) (hlast : last ≤ last') : ReadsWithin cfg p o first' last' :=
  fun chain hhead hread => h chain hhead fun k hk hlt =>
    hread k (Nat.le_trans hfirst hk) (Nat.lt_of_lt_of_le hlt hlast)

theorem Held.tick_within (hnet : Chain.Network cfg chains) (hshared : SharedDeployment cfg chains)
    (h : Held full cfg chains p) (hm : p.memory = some ix) (hwithin : ReadsWithin cfg p o first last)
    (hchain : o.chain first ∈ chains)
    (hsees : ∀ k, first ≤ k → k < last → ∀ m ≤ rangeTop cfg ix p.db (o.chain 0).headNumber,
      (o.chain k)[m]? = (o.chain first)[m]?)
    (hcovers : full → Covers ix p.db) (hfits : Fits cfg ix p.db) :
    Held full cfg chains (step cfg p (.tick o)) := by
  let chain : Nat → Chain := fun k =>
    if k = 0 ∨ first ≤ k ∧ k < last then o.chain k else o.chain first
  have hstep := hwithin chain (if_pos (.inl rfl)) fun k hk hlt => if_pos (.inr ⟨hk, hlt⟩)
  rw [← hstep, step, hm]
  have hheld := tick_held_after_head (o := o.showing chain) hnet hshared hchain ?_ (h.memory ix hm)
    hcovers hfits
  · exact ⟨hheld.indexed, fun ix' hix' => Option.some.inj hix' ▸ hheld⟩
  · intro k hk m hle
    change (if k = 0 ∨ first ≤ k ∧ k < last then o.chain k else o.chain first)[m]? = _
    split
    · rename_i hin
      rcases hin with rfl | ⟨hfirst, hlast⟩
      · exact absurd hk (Nat.lt_irrefl 0)
      · exact hsees k hfirst hlast m hle
    · rfl

end Process

end ArkSwap.GoInternal
