import ArkSwap.IndexerReads
import ArkSwap.NetworkCheck

/-! The event rows after any run: which logs of the chain under the cursor they
are those of, and from which chain each of them comes. -/

namespace ArkSwap.GoInternal

open Indexer

/-- Each row is that of a log in a set, and each such log has one row. -/
structure Feed.Exactly {K R : Type} [Ord K] [Std.TransOrd K] (feed : Feed K R) (cfg : Config)
    (c : Chain) (S : Log → Prop) (rows : Table K R) : Prop where
  sound : ∀ (k : K) row, rows[k]? = some row → ∃ l b, feed.Entry cfg c l b (feed.raw row) ∧ S l
  once : ∀ l b r, feed.Entry cfg c l b r → S l →
    ∃! k : K, ∃ row, rows[k]? = some row ∧ feed.raw row = r

/-- Each row carries the hash of the block that its log came from. -/
def Feed.Hashed {K R : Type} [Ord K] [Std.TransOrd K] (feed : Feed K R) (cfg : Config)
    (chains : Set Chain) (hashOf : R → Word) (rows : Table K R) : Prop :=
  ∀ (k : K) row, rows[k]? = some row →
    ∃ g ∈ chains, ∃ l b, feed.Entry cfg g l b (feed.raw row) ∧ hashOf row = l.blockHash

/-- Each row up to a height is that of a log of the chain. -/
def Feed.Canonical {K R : Type} [Ord K] [Std.TransOrd K] (feed : Feed K R) (cfg : Config)
    (c : Chain) (blockOf : R → Nat) (n : Nat) (rows : Table K R) : Prop :=
  ∀ (k : K) row, rows[k]? = some row → blockOf row ≤ n →
    ∃ l b, feed.Entry cfg c l b (feed.raw row)

/-- The logs of the blocks from the deployment up to a height. -/
def Within (cfg : Config) (n : Nat) (l : Log) : Prop :=
  cfg.factoryDeployBlock ≤ l.blockNumber ∧ l.blockNumber ≤ n

instance {cfg : Config} {n : Nat} {l : Log} : Decidable (Within cfg n l) :=
  inferInstanceAs (Decidable (_ ∧ _))

namespace Database

variable {cfg : Config} {c g : Chain} {chains : Set Chain} {db : Database} {n : Nat}
variable {full : Prop} {st : IndexerState}

/-- The event tables hold what the pairs of the chain emitted, each log once. -/
structure Exact (cfg : Config) (c : Chain) (n : Nat) (db : Database) : Prop where
  swaps : (swapFeed cfg).Exactly cfg c (Within cfg n) db.swaps
  liquidityEvents : (liquidityFeed cfg).Exactly cfg c (Within cfg n) db.liquidityEvents

structure Hashed (cfg : Config) (chains : Set Chain) (db : Database) : Prop where
  swaps : (swapFeed cfg).Hashed cfg chains Swap.blockHash db.swaps
  liquidityEvents : (liquidityFeed cfg).Hashed cfg chains LiquidityEvent.blockHash db.liquidityEvents

structure Canonical (cfg : Config) (c : Chain) (n : Nat) (db : Database) : Prop where
  swaps : (swapFeed cfg).Canonical cfg c Swap.blockNumber n db.swaps
  liquidityEvents : (liquidityFeed cfg).Canonical cfg c LiquidityEvent.blockNumber n
    db.liquidityEvents

section Events

variable {R : Type} {feed : Feed (Word × Nat) R} {blockOf : R → Nat} {addressOf : R → Address}
variable {rows : Table (Word × Nat) R}

theorem exactly_of_event (hnet : Chain.Network cfg chains) (hc : c ∈ chains)
    (hf : EventFeed feed blockOf addressOf) (hsound : feed.Sound cfg c (Below (n + 1)) rows)
    (hcomplete : feed.Complete cfg c (Below (n + 1)) rows) :
    feed.Exactly cfg c (Within cfg n) rows where
  sound k row hrow := by
    obtain ⟨-, l, b, hentry, hl⟩ := hsound k row hrow
    exact ⟨l, b, hentry, hnet.deployed hc hentry.relevant, Nat.le_of_lt_succ hl⟩
  once l b r hentry hl := by
    obtain ⟨row, hrow⟩ := hcomplete l b r hentry (Nat.lt_succ_of_le hl.2)
    have hraw : feed.raw row = r := Option.some.inj
      ((hf.same_log (hnet.wellFormed c hc) hsound hentry hrow).symm.trans hentry.row)
    refine ⟨feed.keyOf r, ⟨row, hrow, hraw⟩, ?_⟩
    rintro k ⟨row', hrow', hraw'⟩
    rw [← (hsound k row' hrow').1, ← feed.keyOf_raw, hraw']

theorem hashed_of_event (hnet : Chain.Network cfg chains) (hg : g ∈ chains) {hashOf : R → Word}
    (hhash : ∀ b l row, feed.rowOf b l = some (feed.raw row) → hashOf row = b.hash) {m : Nat}
    (hsound : feed.Sound cfg g (Below m) rows) : feed.Hashed cfg chains hashOf rows := by
  intro k row hrow
  obtain ⟨-, l, b, hentry, -⟩ := hsound k row hrow
  refine ⟨g, hg, l, b, hentry, ?_⟩
  rw [hhash b l row hentry.row,
    (hnet.wellFormed g hg).blockHash l b hentry.relevant.1 hentry.header]

theorem canonical_of_event {m : Nat} (hsound : feed.Sound cfg c (Below m) rows) :
    feed.Canonical cfg c blockOf n rows := by
  intro k row hrow _
  obtain ⟨-, l, b, hentry, -⟩ := hsound k row hrow
  exact ⟨l, b, hentry⟩

end Events

theorem swapRow_hash {b : Block} {l : Log} {s : Swap}
    (h : (swapFeed cfg).rowOf b l = some ((swapFeed cfg).raw s)) : s.blockHash = b.hash := by
  obtain ⟨-, ev, -, hs⟩ := swapOf_eq_some.mp h
  exact (congrArg Swap.blockHash hs).symm

theorem liquidityRow_hash {b : Block} {l : Log} {e : LiquidityEvent}
    (h : (liquidityFeed cfg).rowOf b l = some ((liquidityFeed cfg).raw e)) :
    e.blockHash = b.hash := by
  have hrow : liquidityOf cfg b l = some e.raw := h
  unfold liquidityOf at hrow
  split at hrow
  · obtain ⟨ev, -, he⟩ := Option.map_eq_some_iff.mp hrow
    exact (congrArg LiquidityEvent.blockHash he).symm
  · obtain ⟨ev, -, he⟩ := Option.map_eq_some_iff.mp hrow
    exact (congrArg LiquidityEvent.blockHash he).symm
  · cases hrow

/-- An index that misses nothing is exact on the chain under its cursor. -/
theorem exact_of_indexed (hnet : Chain.Network cfg chains) (hg : g ∈ chains) (hc : c ∈ chains)
    (hfull : full) (h : Indexed full cfg g db) (hst : db.indexerState[cfg.chainID]? = some st)
    {b : Block} (hb : c.headerAt st.lastProcessedBlock = some b)
    (hhash : b.hash = st.lastProcessedBlockHash) : Exact cfg c st.lastProcessedBlock db := by
  have hmoved := h.move hnet hg hc hst hb hhash
  have hsound := hmoved.sound
  have hcomplete := hmoved.complete hfull
  rw [nextBlock_of_some hst] at hsound hcomplete
  exact ⟨exactly_of_event hnet hc swapFeed_event hsound.swaps hcomplete.swaps,
    exactly_of_event hnet hc liquidityFeed_event hsound.liquidityEvents hcomplete.liquidityEvents⟩

theorem hashed_of_indexed (hnet : Chain.Network cfg chains) (hg : g ∈ chains)
    (h : Indexed full cfg g db) : Hashed cfg chains db :=
  ⟨hashed_of_event hnet hg (fun _ _ _ hrow => swapRow_hash hrow) h.sound.swaps,
    hashed_of_event hnet hg (fun _ _ _ hrow => liquidityRow_hash hrow) h.sound.liquidityEvents⟩

theorem canonical_of_indexed (hnet : Chain.Network cfg chains) (hg : g ∈ chains) (hc : c ∈ chains)
    (h : Indexed full cfg g db) (hst : db.indexerState[cfg.chainID]? = some st) {b : Block}
    (hb : c.headerAt st.lastProcessedBlock = some b) (hhash : b.hash = st.lastProcessedBlockHash) :
    Canonical cfg c st.lastProcessedBlock db := by
  have hmoved := h.move hnet hg hc hst hb hhash
  exact ⟨canonical_of_event hmoved.sound.swaps, canonical_of_event hmoved.sound.liquidityEvents⟩

end Database

namespace Process

variable {cfg : Config} {chains : Set Chain} {c : Chain} {full : Prop} {st : IndexerState}
variable {steps : List Step} {P : Process → Step → Prop}

/-- All calls of a Tick see one chain of the network. -/
def Steady (chains : Set Chain) : Step → Prop
  | .tick o => o.chain 0 ∈ chains ∧ ∀ k, o.chain k = o.chain 0
  | .restart _ => True

/-- The calls of a Tick see chains of the network, each perhaps another one. -/
def Switching (chains : Set Chain) : Step → Prop
  | .tick o => ∀ k, o.chain k ∈ chains
  | .restart _ => True

/-- A Tick starts with all stored pairs in memory, and its range ends at a
height that 64 bits hold. -/
def Ready (cfg : Config) (p : Process) : Step → Prop
  | .tick _ => ∀ ix, p.memory = some ix → Covers ix p.db ∧ Fits cfg ix p.db
  | .restart _ => True

instance : ∀ p s, Decidable (Ready cfg p s)
  | p, .tick _ => inferInstanceAs (Decidable (∀ ix, p.memory = some ix → _))
  | _, .restart _ => .isTrue trivial

/-- Where a Tick reads the chain, from the header at its cursor to that at the end of its range,
the blocks up to there are the same for all calls, and 64 bits hold the end. -/
def Undisturbed (cfg : Config) (p : Process) : Step → Prop
  | .tick o => ∀ ix, p.memory = some ix → Fits cfg ix p.db ∧ ∃ first last,
      ReadsWithin cfg p o first last ∧ ∀ k, first ≤ k → k < last →
        ∀ m ≤ rangeTop cfg ix p.db (o.chain 0).headNumber, (o.chain k)[m]? = (o.chain first)[m]?
  | .restart _ => True

theorem indexed_empty (full : Prop) (cfg : Config) (c : Chain)
    (hnone : ∀ l, c.Relevant cfg l → cfg.factoryDeployBlock ≤ l.blockNumber) :
    Indexed full cfg c Database.empty := by
  have hcursor : Database.empty.indexerState[cfg.chainID]? = none := by simp [Database.empty]
  have hnext : nextBlock cfg Database.empty = cfg.factoryDeployBlock := by rw [nextBlock, hcursor]
  have hbelow : ∀ l, c.Relevant cfg l → ¬Below cfg.factoryDeployBlock l :=
    fun l hl => Nat.not_lt_of_le (hnone l hl)
  refine ⟨fun st hst => ?_, ⟨fun n b hb => ?_, Feed.Sound.empty, Feed.Sound.empty, Feed.Sound.empty⟩,
    fun _ => ?_⟩
  · rw [hcursor] at hst
    cases hst
  · simp [Database.empty] at hb
  · rw [hnext]
    exact ⟨fun l b r hentry hl => (hbelow l hentry.relevant hl).elim,
      fun l b r hentry hl => (hbelow l hentry.relevant hl).elim,
      fun l b r hentry hl => (hbelow l hentry.relevant hl).elim⟩

theorem Held.initial (hnet : Chain.Network cfg chains) (hc : c ∈ chains) :
    Held full cfg chains initial :=
  ⟨⟨c, hc, indexed_empty full cfg c fun _ hl => hnet.deployed hc hl⟩, fun ix hix => by cases hix⟩

theorem run_held (hnet : Chain.Network cfg chains) (hshared : SharedDeployment cfg chains)
    (hbatch : 0 < cfg.blockBatchSize) (hc : c ∈ chains)
    (hP : ∀ p o, P p (.tick o) → Orderly full cfg chains p o)
    (h : Run.Along (step cfg) P initial steps) :
    Held full cfg chains (Run.run (step cfg) initial steps) := by
  refine Run.run_inv_along (Held full cfg chains) (fun p s hp hs => ?_) (Held.initial hnet hc) h
  cases s with
  | tick o => exact hp.tick hnet hshared (hP p o hs)
  | restart o => exact hp.restart hbatch

/-- Along runs of Ticks that start ready, the event tables under a canonical
cursor are exact. -/
theorem run_exact (hnet : Chain.Network cfg chains) (hshared : SharedDeployment cfg chains)
    (hbatch : 0 < cfg.blockBatchSize) (hsteady : ∀ s ∈ steps, Steady chains s)
    (hready : Run.Along (step cfg) (Ready cfg) initial steps) (hc : c ∈ chains)
    (hst : (Run.run (step cfg) initial steps).db.indexerState[cfg.chainID]? = some st) {b : Block}
    (hb : c.headerAt st.lastProcessedBlock = some b) (hhash : b.hash = st.lastProcessedBlockHash) :
    (Run.run (step cfg) initial steps).db.Exact cfg c st.lastProcessedBlock := by
  have hboth : Run.Along (step cfg) (fun p s => Steady chains s ∧ Ready cfg p s) initial steps :=
    hready.and hsteady
  have hheld : Held True cfg chains (Run.run (step cfg) initial steps) := by
    refine run_held hnet hshared hbatch hc (fun p o hp => ?_) hboth
    obtain ⟨⟨hchain, hfixed⟩, hready⟩ := hp
    exact ⟨hchain, fun k n _ => by rw [hfixed k], fun _ ix hix => (hready ix hix).1,
      fun ix hix => (hready ix hix).2⟩
  obtain ⟨g, hg, hindexed⟩ := hheld.indexed
  exact Database.exact_of_indexed hnet hg hc True.intro hindexed hst hb hhash

section Fork

open GoInternal.Fork

theorem shared : SharedDeployment Fork.cfg Fork.chains := by
  have h : ∀ c ∈ [quiet, trading], ∀ c' ∈ [quiet, trading], ∀ b ∈ c.headerAt Fork.cfg.factoryDeployBlock,
      ∀ b' ∈ c'.headerAt Fork.cfg.factoryDeployBlock, b.hash = b'.hash := by decide +kernel
  exact fun c hc c' hc' b b' hb hb' => h c hc c' hc' b hb b' hb'

/-- What is outside, with the chain that each call sees and the calls that fail. -/
def outside (chain : Nat → Chain) (failing : List Nat) : Outside :=
  { abi := { unpackString := fun _ => none, unpackUint8 := fun _ => none }
    chainID := fun _ => 1
    hasCode := fun _ => true
    chain := chain
    answer := fun _ _ _ => none
    error := fun k => if k ∈ failing then some "timeout" else none
    lost := fun _ => false }

/-- The chain changes between two Ticks; calls of the second one may fail. -/
def reorganised (failing : List Nat) : List Step :=
  [.restart (outside (fun _ => quiet) []), .tick (outside (fun _ => quiet) []),
    .tick (outside (fun _ => trading) failing), .tick (outside (fun _ => trading) [])]

theorem steady (failing : List Nat) : ∀ s ∈ reorganised failing, Steady Fork.chains s := by
  intro s hs
  simp only [reorganised, List.mem_cons, List.not_mem_nil, or_false] at hs
  rcases hs with rfl | rfl | rfl | rfl
  · exact True.intro
  · exact ⟨quiet_mem, fun _ => rfl⟩
  · exact ⟨trading_mem, fun _ => rfl⟩
  · exact ⟨trading_mem, fun _ => rfl⟩

theorem reorganised_exact :
    (Run.run (step Fork.cfg) initial (reorganised [])).db.Exact Fork.cfg trading 2 ∧
      (Run.run (step Fork.cfg) initial (reorganised [])).db.swaps.toList.length = 1 := by
  have hstate : (Run.run (step Fork.cfg) initial (reorganised [])).db.indexerState[Fork.cfg.chainID]? =
      some { chainID := 1, lastProcessedBlock := 2, lastProcessedBlockHash := 202 } := by
    decide +kernel
  exact ⟨run_exact network shared (by decide) (steady []) (by decide +kernel) trading_mem
    (b := { number := 2, hash := 202, parentHash := 101, timestamp := 3100 })
    hstate (by decide +kernel) rfl, by decide +kernel⟩

/-- The call that fails is the one that reads the pairs back after the rollback. -/
theorem interrupted_reload_misses :
    Chain.Network Fork.cfg Fork.chains ∧ SharedDeployment Fork.cfg Fork.chains ∧ 0 < Fork.cfg.blockBatchSize ∧
      (∀ s ∈ reorganised [16], Steady Fork.chains s) ∧
      (Run.run (step Fork.cfg) initial (reorganised [16])).db.indexerState[Fork.cfg.chainID]? =
        some { chainID := 1, lastProcessedBlock := 2, lastProcessedBlockHash := 202 } ∧
      trading.headerAt 2 = some { number := 2, hash := 202, parentHash := 101, timestamp := 3100 } ∧
      ¬(Run.run (step Fork.cfg) initial (reorganised [16])).db.Exact Fork.cfg trading 2 := by
  refine ⟨network, shared, by decide, steady _, by decide +kernel, by decide +kernel, fun h => ?_⟩
  have hentry : (swapFeed Fork.cfg).Entry Fork.cfg trading traded
      { number := 2, hash := 202, parentHash := 101, timestamp := 3100 }
      (swapRow Fork.cfg { number := 2, hash := 202, parentHash := 101, timestamp := 3100 } traded
        { sender := 9, recipient := 9, amount0In := 5, amount1In := 0, amount0Out := 0,
          amount1Out := 4 }) := by
    refine ⟨⟨by decide +kernel, Or.inr ⟨⟨created, { token0 := 1, token1 := 2, pair := 50, index := 1 },
      by decide +kernel, rfl, rfl, rfl, rfl⟩, .swap, by decide, rfl⟩⟩, by decide +kernel, rfl⟩
  obtain ⟨k, ⟨row, hrow, -⟩, -⟩ := h.swaps.once _ _ _ hentry (by decide)
  have hnone : (Run.run (step Fork.cfg) initial (reorganised [16])).db.swaps.toList = [] := by
    decide +kernel
  have hmem := Std.ExtTreeMap.mem_toList_iff_getElem?_eq_some.mpr hrow
  rw [hnone] at hmem
  exact List.not_mem_nil hmem

end Fork

theorem undisturbed_between {p : Process} {o : Outside} (last : Nat)
    (hlast : ∀ ix, p.memory = some ix →
      Fits cfg ix p.db ∧ (tickReads cfg o ⟨ix, p.db, 0⟩).2.calls ≤ last)
    (hsees : ∀ k, 2 ≤ k → k < last → o.chain k = c) : Undisturbed cfg p (.tick o) := by
  intro ix hm
  obtain ⟨hfits, hle⟩ := hlast ix hm
  refine ⟨hfits, 2, last, (readsWithin_tick hm).mono (Nat.le_refl 2) hle, fun k hk hlt m _ => ?_⟩
  rw [hsees k hk hlt, hsees 2 (Nat.le_refl 2) (Nat.lt_of_le_of_lt hk hlt)]

theorem undisturbed_of_fixed {p : Process} {o : Outside} (hfixed : ∀ k, o.chain k = c)
    (hfits : ∀ ix, p.memory = some ix → Fits cfg ix p.db) : Undisturbed cfg p (.tick o) :=
  fun ix hm => ⟨hfits ix hm, 2, _, readsWithin_tick hm, fun k _ _ m _ => by rw [hfixed k, hfixed 2]⟩

theorem held_of_undisturbed (hnet : Chain.Network cfg chains) (hshared : SharedDeployment cfg chains)
    (hbatch : 0 < cfg.blockBatchSize) (hswitching : ∀ s ∈ steps, Switching chains s)
    (hundisturbed : Run.Along (step cfg) (Undisturbed cfg) initial steps) (hc : c ∈ chains) :
    Held False cfg chains (Run.run (step cfg) initial steps) := by
  refine Run.run_inv_along (Held False cfg chains) (fun p s hp hs => ?_) (Held.initial hnet hc)
    (hundisturbed.and hswitching)
  cases s with
  | restart o => exact hp.restart hbatch
  | tick o =>
    obtain ⟨hchain, hundisturbed⟩ := hs
    rcases hm : p.memory with _ | ix
    · rw [step, hm]
      exact hp
    · obtain ⟨hfits, first, last, hwithin, hsees⟩ := hundisturbed ix hm
      exact hp.tick_within hnet hshared hm hwithin (hchain first) hsees False.elim hfits

/-- Along runs of undisturbed Ticks, rows carry the hashes of their blocks, and
those under a canonical cursor are canonical. -/
theorem run_canonical (hnet : Chain.Network cfg chains) (hshared : SharedDeployment cfg chains)
    (hbatch : 0 < cfg.blockBatchSize) (hswitching : ∀ s ∈ steps, Switching chains s)
    (hundisturbed : Run.Along (step cfg) (Undisturbed cfg) initial steps) (hc : c ∈ chains) :
    (Run.run (step cfg) initial steps).db.Hashed cfg chains ∧
      ∀ st b, (Run.run (step cfg) initial steps).db.indexerState[cfg.chainID]? = some st →
        c.headerAt st.lastProcessedBlock = some b → b.hash = st.lastProcessedBlockHash →
        (Run.run (step cfg) initial steps).db.Canonical cfg c st.lastProcessedBlock := by
  have hheld := held_of_undisturbed hnet hshared hbatch hswitching hundisturbed hc
  obtain ⟨g, hg, hindexed⟩ := hheld.indexed
  exact ⟨Database.hashed_of_indexed hnet hg hindexed, fun st b hst hb hhash =>
    Database.canonical_of_indexed hnet hg hc hindexed hst hb hhash⟩

section Fork

open GoInternal.Fork

theorem sees_steady (chain : Chain) (failing : List Nat) (top : Nat) :
    Sees (outside (fun _ => chain) failing) chain top := fun _ _ _ => rfl

/-- The second Tick reads the head before a reorganisation, and when it has read the header
at the end of its range, in its call 26, the chain is back where it was. -/
def rejoined : List Step :=
  [.restart (outside (fun _ => quiet) []), .tick (outside (fun _ => quiet) []),
    .tick (outside (fun k => if 0 < k ∧ k < 27 then trading else quiet) [])]

theorem rejoined_switching : ∀ s ∈ rejoined, Switching Fork.chains s := by
  intro s hs
  simp only [rejoined, List.mem_cons, List.not_mem_nil, or_false] at hs
  rcases hs with rfl | rfl | rfl
  · exact True.intro
  · exact fun _ => quiet_mem
  · intro k
    change (if 0 < k ∧ k < 27 then trading else quiet) ∈ Fork.chains
    split
    · exact trading_mem
    · exact quiet_mem

theorem rejoined_undisturbed : Run.Along (step Fork.cfg) (Undisturbed Fork.cfg) initial rejoined := by
  refine ⟨True.intro, undisturbed_of_fixed (fun _ => rfl) (by decide +kernel), ?_, True.intro⟩
  refine undisturbed_between (c := trading) 27 (by decide +kernel) fun k hk hlt => ?_
  exact if_pos ⟨by omega, hlt⟩

theorem rejoined_canonical :
    (Run.run (step Fork.cfg) initial rejoined).db.Hashed Fork.cfg Fork.chains ∧
      (Run.run (step Fork.cfg) initial rejoined).db.Canonical Fork.cfg trading 2 ∧
      (Run.run (step Fork.cfg) initial rejoined).db.swaps.toList.length = 1 := by
  obtain ⟨hhashed, hcanonical⟩ :=
    run_canonical network shared (by decide) rejoined_switching rejoined_undisturbed trading_mem
  exact ⟨hhashed, hcanonical { chainID := 1, lastProcessedBlock := 2, lastProcessedBlockHash := 202 }
    { number := 2, hash := 202, parentHash := 101, timestamp := 3100 } (by decide +kernel)
    (by decide +kernel) rfl, by decide +kernel⟩

/-- The chain changes after the logs of a range are read. -/
def switched : List Step :=
  [.restart (outside (fun _ => trading) []),
    .tick (outside (fun k => if k < 19 then trading else quiet) [])]

theorem switched_not_canonical :
    Chain.Network Fork.cfg Fork.chains ∧ SharedDeployment Fork.cfg Fork.chains ∧
      0 < Fork.cfg.blockBatchSize ∧ (∀ s ∈ switched, Switching Fork.chains s) ∧
      (Run.run (step Fork.cfg) initial switched).db.indexerState[Fork.cfg.chainID]? =
        some { chainID := 1, lastProcessedBlock := 2, lastProcessedBlockHash := 102 } ∧
      quiet.headerAt 2 = some { number := 2, hash := 102, parentHash := 101, timestamp := 3000 } ∧
      ¬(Run.run (step Fork.cfg) initial switched).db.Hashed Fork.cfg Fork.chains ∧
      ¬(Run.run (step Fork.cfg) initial switched).db.Canonical Fork.cfg quiet 2 := by
  have hrows : (Run.run (step Fork.cfg) initial switched).db.swaps.toList.map
      (fun row => (row.1, row.2.blockNumber, row.2.blockHash)) = [((902, 0), 2, 102)] := by
    decide +kernel
  obtain ⟨⟨k, row⟩, hmem, hkey⟩ := List.mem_map.mp (by rw [hrows]; exact List.mem_cons_self)
  simp only [Prod.mk.injEq] at hkey
  have hrow := Std.ExtTreeMap.mem_toList_iff_getElem?_eq_some.mp hmem
  have hquiet : ∀ l ∈ quiet.logs, l.topic ≠ some .swap := by decide +kernel
  have htrading : ∀ l ∈ trading.logs, l.topic = some .swap → l.blockHash = 202 := by
    decide +kernel
  refine ⟨network, shared, by decide, ?_, by decide +kernel, by decide +kernel, fun h => ?_,
    fun h => ?_⟩
  · intro s hs
    simp only [switched, List.mem_cons, List.not_mem_nil, or_false] at hs
    rcases hs with rfl | rfl
    · exact True.intro
    · intro k
      change (if k < 19 then trading else quiet) ∈ Fork.chains
      split
      · exact trading_mem
      · exact quiet_mem
  · obtain ⟨g, hg, l, b, hentry, hhash⟩ := h.swaps k row hrow
    have htopic := (swapOf_eq_some.mp hentry.row).1
    rcases List.mem_cons.mp hg with rfl | hg
    · exact hquiet l hentry.relevant.1.mem_logs htopic
    · obtain rfl := List.mem_singleton.mp hg
      rw [htrading l hentry.relevant.1.mem_logs htopic, hkey.2.2] at hhash
      exact absurd hhash (by decide)
  · obtain ⟨l, b, hentry⟩ := h.swaps k row hrow (Nat.le_of_eq hkey.2.1)
    exact hquiet l hentry.relevant.1.mem_logs (swapOf_eq_some.mp hentry.row).1

end Fork

end Process

end ArkSwap.GoInternal
