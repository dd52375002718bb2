import ArkSwap.IndexerEvents

/-! A sync to the head on one chain: what its Ticks establish, and when the test
for being caught up lets it return on a cursor that is not on the chain. -/

namespace ArkSwap.GoInternal

open Prog

/-- What is outside when nothing fails. -/
def Outside.calm (c : Chain) : Outside :=
  { abi := { unpackString := fun _ => none, unpackUint8 := fun _ => none }
    chainID := fun _ => 0
    hasCode := fun _ => true
    chain := fun _ => c
    answer := fun _ _ _ => none
    error := fun _ => none
    lost := fun _ => false }

namespace Indexer

variable {cfg : Config} {o : Outside} {c : Chain} {chains : Set Chain}
variable {ix : Indexer} {db : Database}

/-- The cursor is on the chain at the safe block or above, and every row is one
of the chain up to there. -/
def Synced (cfg : Config) (c : Chain) (db : Database) : Prop :=
  ∃ st, db.indexerState[cfg.chainID]? = some st ∧
    safeBlock cfg c.headNumber ≤ st.lastProcessedBlock ∧ OnChain cfg c st ∧
    Sound cfg c (st.lastProcessedBlock + 1) db

/-- A database that counts as caught up has its cursor on the chain. -/
def Trusted (cfg : Config) (c : Chain) (db : Database) : Prop :=
  safeBlock cfg c.headNumber < nextBlock cfg db →
    ∃ st, db.indexerState[cfg.chainID]? = some st ∧ OnChain cfg c st

theorem synced_of_trusted (hnet : Chain.Network cfg chains) (hc : c ∈ chains)
    (hheld : Held False cfg chains ix db) (htrusted : Trusted cfg c db)
    (hcaught : safeBlock cfg c.headNumber < nextBlock cfg db) : Synced cfg c db := by
  obtain ⟨g, hg, hindexed⟩ := hheld.indexed
  obtain ⟨st, hst, hdeploy, b, hb, hhash⟩ := htrusted hcaught
  have hmoved := hindexed.move hnet hg hc hst hb hhash
  have hsound := hmoved.sound
  have hnext := nextBlock_of_some hst
  rw [hnext] at hsound hcaught
  exact ⟨st, hst, by omega, ⟨hdeploy, b, hb, hhash⟩, hsound⟩

/-- An index of a chain stays one when a block of the chain is added. -/
theorem Kept.indexed : Kept False cfg o c fun _ db => Indexed False cfg c db where
  block bn header tokens logs ix db ix' db' h _ hnext hblock _ _ hrun := by
    have hcursor := indexBlock_cursor hrun
    have hdeploy : cfg.factoryDeployBlock ≤ bn := Nat.le_trans h.deployed hnext
    have hsound := h.sound.indexBlock hdeploy (by omega) hblock.headerAt hblock.number
      hblock.relevant hrun
    refine ⟨fun st hst => ?_, ?_, False.elim⟩
    · obtain rfl := Option.some.inj (hcursor.symm.trans hst)
      exact ⟨hdeploy, header, hblock.headerAt, rfl⟩
    · rw [nextBlock_of_some hcursor]
      exact hsound
  cursor n b ix db h _ hnext hb _ hdeploy := by
    have hcursor := cursorAt_effect cfg n b db
    have hsound := h.sound.extend hnext
    refine ⟨fun st hst => ?_, ?_, False.elim⟩
    · obtain rfl := Option.some.inj (hcursor.symm.trans hst)
      exact ⟨hdeploy, b, hb, rfl⟩
    · rw [nextBlock_of_some hcursor]
      exact { hsound with }
  batch _ _ _ h := h

theorem headNumber_le {safe : Nat} (hsafe : safe ≤ c.headNumber) : safe ≤ c.length := by
  rw [Chain.headNumber] at hsafe
  omega

theorem safeBlock_le (cfg : Config) (head : Nat) : safeBlock cfg head ≤ head := by
  rw [safeBlock]
  split <;> omega

theorem tick_indexed (hnet : Chain.Network cfg chains) (hshared : SharedDeployment cfg chains)
    (hc : c ∈ chains) (hfixed : ∀ k, o.chain k = c)
    (hfits : c.length + cfg.blockBatchSize ≤ 2 ^ 64) :
    Triple (On fun ix db => Held False cfg chains ix db ∧
        nextBlock cfg db ≤ safeBlock cfg c.headNumber)
      (tick cfg o) (fun _ => On fun ix db => Held False cfg chains ix db ∧ Indexed False cfg c db)
      fun _ => True := by
  have hsees : Sees o c c.headNumber := fun k n _ => by rw [hfixed k]
  refine Triple.bind (Triple.conseq blockNumber_triple (fun _ hs => hs) (fun _ _ hs => hs)
    fun _ _ => True.intro) fun head => ?_
  rintro s ⟨⟨hheld, hnext⟩, k, rfl⟩
  rw [hfixed k]
  have hsafe := safeBlock_le cfg c.headNumber
  have hbound := headNumber_le (Nat.le_trans hnext hsafe)
  have hfits' : Fits cfg s.ix s.db := by
    have hbatch := hheld.batch
    rw [Fits]
    omega
  have htop : ∀ st, s.db.indexerState[cfg.chainID]? = some st →
      st.lastProcessedBlock ≤ c.headNumber :=
    fun st hst => (Nat.lt_of_lt_of_le (lt_of_nextBlock_le hnext hst) hsafe).le
  refine Triple.bind (Triple.conseq (checkReorg_triple hnet hshared hc hsees hheld False.elim hfits'
    htop) (fun _ hs => hs) (fun _ _ hs => hs) fun _ _ => True.intro) (fun _ => ?_) s ⟨rfl, rfl⟩
  exact Triple.conseq (advance_held hnet hc hsees hsafe Kept.indexed Left.trivial)
    (fun _ hs => ⟨hs, hs.indexed⟩) (fun _ _ hs => hs) fun _ _ => True.intro

theorem caughtUp_triple {P : Indexer → Database → Prop} (hfixed : ∀ k, o.chain k = c) :
    Triple (On P) (caughtUp cfg o) (fun done => On fun ix db => P ix db ∧
      (done = true ↔ safeBlock cfg c.headNumber < nextBlock cfg db)) (On P) := by
  refine Triple.bind blockNumber_triple fun head => ?_
  refine Triple.bind (Triple.conseq startBlock_triple (fun _ hs => hs) (fun _ _ hs => hs)
    fun _ hs => hs.1) fun fromBlock => Triple.pure ?_
  rintro s ⟨⟨hP, k, rfl⟩, rfl⟩
  rw [hfixed k]
  exact ⟨hP, decide_eq_true_iff⟩

theorem syncToHead_triple (hnet : Chain.Network cfg chains) (hshared : SharedDeployment cfg chains)
    (hc : c ∈ chains) (hfixed : ∀ k, o.chain k = c)
    (hfits : c.length + cfg.blockBatchSize ≤ 2 ^ 64) (rounds : Nat) :
    Triple (On fun ix db => Held False cfg chains ix db ∧ Trusted cfg c db)
      (syncToHead cfg o rounds) (fun done => On fun _ db => done = true → Synced cfg c db)
      fun _ => True := by
  induction rounds with
  | zero => exact Triple.pure fun _ _ h => by cases h
  | succ rounds ih =>
    refine Triple.bind (Triple.conseq (caughtUp_triple hfixed) (fun _ hs => hs) (fun _ _ hs => hs)
      fun _ _ => True.intro) fun done => ?_
    by_cases hdone : done = true
    · rw [if_pos hdone]
      refine Triple.pure fun s hs _ => ?_
      obtain ⟨⟨hheld, htrusted⟩, hcaught⟩ := hs
      exact synced_of_trusted hnet hc hheld htrusted (hcaught.mp hdone)
    · rw [if_neg hdone]
      -- After a Tick that had a range to do, only a stored cursor can be past the safe block.
      intro s hs
      obtain ⟨⟨hheld, -⟩, hcaught⟩ := hs
      have hnext : nextBlock cfg s.db ≤ safeBlock cfg c.headNumber :=
        Nat.le_of_not_lt fun hlt => hdone (hcaught.mpr hlt)
      obtain ⟨g, hg, hindexed⟩ := hheld.indexed
      have hdeploy := Nat.le_trans hindexed.deployed hnext
      have htrusted : ∀ t, On (fun ix db => Held False cfg chains ix db ∧ Indexed False cfg c db) t →
          On (fun ix db => Held False cfg chains ix db ∧ Trusted cfg c db) t := by
        rintro t ⟨hheld', hindexed'⟩
        refine ⟨hheld', fun hlt => ?_⟩
        rcases hst : t.db.indexerState[cfg.chainID]? with _ | st
        · rw [nextBlock, hst] at hlt
          exact absurd hdeploy (Nat.not_le_of_lt hlt)
        · exact ⟨st, rfl, hindexed'.cursor st hst⟩
      refine Triple.bind (Triple.conseq (tick_indexed hnet hshared hc hfixed hfits) (fun _ hs => hs)
        (fun _ => htrusted) fun _ hs => hs) (fun _ => ?_) s ⟨hheld, hnext⟩
      exact Triple.bind (Triple.conseq request_triple (fun _ hs => hs) (fun _ _ hs => hs)
        fun _ _ => True.intro) fun _ => ih

theorem caughtUp_calm (h : safeBlock cfg c.headNumber < nextBlock cfg db) :
    caughtUp cfg (Outside.calm c) ⟨ix, db, 0⟩ = (.ok true, ⟨ix, db, 2⟩) := by
  rw [nextBlock] at h
  simp only [caughtUp, blockNumber, startBlock, query, request, nextCall, Prog.get, Prog.modify, bind,
    pure, Outside.calm]
  rcases hst : db.indexerState[cfg.chainID]? with _ | st <;>
  · rw [hst] at h
    simp only [decide_eq_true h]

theorem syncToHead_trusted (hnet : Chain.Network cfg chains) (hshared : SharedDeployment cfg chains)
    (hc : c ∈ chains) (hheld : Held False cfg chains ix db)
    (hfits : c.length + cfg.blockBatchSize ≤ 2 ^ 64) :
    (∀ o rounds calls t, (∀ k, o.chain k = c) →
      syncToHead cfg o rounds ⟨ix, db, calls⟩ = (.ok true, t) → Synced cfg c t.db) ↔
      Trusted cfg c db := by
  constructor
  · intro h hcaught
    have hrun : syncToHead cfg (Outside.calm c) 1 ⟨ix, db, 0⟩ = (.ok true, ⟨ix, db, 2⟩) :=
      Prog.bind_of_ok _ (caughtUp_calm hcaught)
    obtain ⟨st, hst, -, hon, -⟩ := h (Outside.calm c) 1 0 _ (fun _ => rfl) hrun
    exact ⟨st, hst, hon⟩
  · intro htrusted o rounds calls t hfixed hrun
    exact (syncToHead_triple hnet hshared hc hfixed hfits rounds ⟨ix, db, calls⟩
      ⟨hheld, htrusted⟩).1 true t hrun rfl

end Indexer

namespace Process

open Indexer

variable {cfg : Config} {c : Chain} {chains : Set Chain} {steps : List Step} {ix : Indexer}

/-- After any run of undisturbed Ticks, and whatever fails then: a sync that
returns has reached the chain's safe block, unless the database counted as caught
up from the start with a cursor that is not on the chain. -/
theorem syncToHead_iff (hnet : Chain.Network cfg chains) (hshared : SharedDeployment cfg chains)
    (hbatch : 0 < cfg.blockBatchSize) (hswitching : ∀ s ∈ steps, Switching chains s)
    (hundisturbed : Run.Along (step cfg) (Undisturbed cfg) initial steps) (hc : c ∈ chains)
    (hix : (Run.run (step cfg) initial steps).memory = some ix)
    (hfits : c.length + cfg.blockBatchSize ≤ 2 ^ 64) :
    (∀ o rounds calls t, (∀ k, o.chain k = c) →
      syncToHead cfg o rounds ⟨ix, (Run.run (step cfg) initial steps).db, calls⟩ = (.ok true, t) →
      Synced cfg c t.db) ↔ Trusted cfg c (Run.run (step cfg) initial steps).db := by
  have hheld := held_of_undisturbed hnet hshared hbatch hswitching hundisturbed hc
  exact syncToHead_trusted hnet hshared hc (hheld.memory ix hix) hfits

section Fork

open GoInternal.Fork

/-- The pair created in block 1 is in memory, and the cursor on the quiet branch. -/
def settled : List Step :=
  [.restart (outside (fun _ => quiet) []), .tick (outside (fun _ => quiet) [])]

theorem settled_switching : ∀ s ∈ settled, Switching Fork.chains s := by
  intro s hs
  simp only [settled, List.mem_cons, List.not_mem_nil, or_false] at hs
  rcases hs with rfl | rfl
  · exact True.intro
  · exact fun _ => quiet_mem

theorem settled_undisturbed : Run.Along (step Fork.cfg) (Undisturbed Fork.cfg) initial settled :=
  ⟨True.intro, undisturbed_of_fixed (fun _ => rfl) (by decide +kernel), True.intro⟩

/-- The Tick fails when it comes to the header of block 2, so the cursor stays behind. -/
def paused : List Step :=
  [.restart (outside (fun _ => quiet) []), .tick (outside (fun _ => quiet) [19])]

theorem paused_switching : ∀ s ∈ paused, Switching Fork.chains s := by
  intro s hs
  simp only [paused, List.mem_cons, List.not_mem_nil, or_false] at hs
  rcases hs with rfl | rfl
  · exact True.intro
  · exact fun _ => quiet_mem

theorem paused_undisturbed : Run.Along (step Fork.cfg) (Undisturbed Fork.cfg) initial paused :=
  ⟨True.intro, undisturbed_of_fixed (fun _ => rfl) (by decide +kernel), True.intro⟩

/-- From the block behind, a sync on the other branch returns, with the swap of its block 2. -/
theorem paused_returns : nextBlock Fork.cfg (Run.run (step Fork.cfg) initial paused).db = 2 ∧
    ∃ ix, (Run.run (step Fork.cfg) initial paused).memory = some ix ∧
      Returns (syncToHead Fork.cfg (Outside.calm trading) 2)
        (fun done t => done = true ∧ t.db.swaps.toList.length = 1)
        ⟨ix, (Run.run (step Fork.cfg) initial paused).db, 0⟩ := by
  obtain ⟨ix, hix⟩ : ∃ ix, (Run.run (step Fork.cfg) initial paused).memory = some ix :=
    Option.isSome_iff_exists.mp (by decide +kernel)
  have hreturns : ∀ ix, (Run.run (step Fork.cfg) initial paused).memory = some ix →
      Returns (syncToHead Fork.cfg (Outside.calm trading) 2)
        (fun done t => done = true ∧ t.db.swaps.toList.length = 1)
        ⟨ix, (Run.run (step Fork.cfg) initial paused).db, 0⟩ := by decide +kernel
  exact ⟨by decide +kernel, ix, hix, hreturns ix hix⟩

theorem paused_synced : ∃ ix t, (Run.run (step Fork.cfg) initial paused).memory = some ix ∧
    syncToHead Fork.cfg (Outside.calm trading) 2
      ⟨ix, (Run.run (step Fork.cfg) initial paused).db, 0⟩ = (.ok true, t) ∧
    Synced Fork.cfg trading t.db ∧ t.db.swaps.toList.length = 1 := by
  obtain ⟨hnext, ix, hix, hreturns⟩ := paused_returns
  obtain ⟨done, t, hrun, hdone, hswaps⟩ := returns_iff.mp hreturns
  rw [hdone] at hrun
  have hsafe : safeBlock Fork.cfg trading.headNumber = 2 := by decide +kernel
  refine ⟨ix, t, hix, hrun, (syncToHead_iff network shared (by decide) paused_switching
    paused_undisturbed trading_mem hix (by decide +kernel)).mpr (fun hcaught => ?_) _ 2 0 t
      (fun _ => rfl) hrun, hswaps⟩
  rw [hnext, hsafe] at hcaught
  exact absurd hcaught (Nat.lt_irrefl 2)

/-- The chain is another one of the same height: the first test returns. -/
theorem settled_not_synced : Chain.Network Fork.cfg Fork.chains ∧
    SharedDeployment Fork.cfg Fork.chains ∧ trading ∈ Fork.chains ∧
    (∀ s ∈ settled, Switching Fork.chains s) ∧
    Run.Along (step Fork.cfg) (Undisturbed Fork.cfg) initial settled ∧
    ∃ ix, (Run.run (step Fork.cfg) initial settled).memory = some ix ∧ ∃ t, syncToHead Fork.cfg (Outside.calm trading) 1
      ⟨ix, (Run.run (step Fork.cfg) initial settled).db, 0⟩ = (.ok true, t) ∧
      ¬Synced Fork.cfg trading t.db := by
  obtain ⟨ix, hix⟩ : ∃ ix, (Run.run (step Fork.cfg) initial settled).memory = some ix :=
    Option.isSome_iff_exists.mp (by decide +kernel)
  have hcursor : (Run.run (step Fork.cfg) initial settled).db.indexerState[Fork.cfg.chainID]? =
      some { chainID := 1, lastProcessedBlock := 2, lastProcessedBlockHash := 102 } := by
    decide +kernel
  have hcaught : safeBlock Fork.cfg trading.headNumber <
      nextBlock Fork.cfg (Run.run (step Fork.cfg) initial settled).db := by
    decide +kernel
  refine ⟨network, shared, trading_mem, settled_switching, settled_undisturbed, ix, hix, _,
    Prog.bind_of_ok _ (caughtUp_calm hcaught), ?_⟩
  rintro ⟨st, hst, -, ⟨-, b, hb, hhash⟩, -⟩
  obtain rfl := Option.some.inj (hcursor.symm.trans hst)
  have hheader : trading.headerAt 2 =
      some { number := 2, hash := 202, parentHash := 101, timestamp := 3100 } := by decide +kernel
  obtain rfl := Option.some.inj (hheader.symm.trans hb)
  exact absurd hhash (by decide)

end Fork

end Process

end ArkSwap.GoInternal
