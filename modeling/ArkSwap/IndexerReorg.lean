import ArkSwap.IndexerRollback

/-! The reorganisation check: the walk back to a block both chains have, the
rollback to it, and the pairs that are then in memory. -/

namespace ArkSwap.GoInternal

open Prog

namespace Indexer

variable {cfg : Config} {o : Outside} {c g : Chain} {chains : Set Chain} {full : Prop}
variable {ix : Indexer} {db db' : Database} {top n : Nat}

/-- The cursor stands on a block of the chain. -/
def OnChain (cfg : Config) (c : Chain) (st : IndexerState) : Prop :=
  cfg.factoryDeployBlock ≤ st.lastProcessedBlock ∧
    ∃ b, c.headerAt st.lastProcessedBlock = some b ∧ b.hash = st.lastProcessedBlockHash

/-- The database is an index of the chain up to its cursor, and, where that is
asked for, one that misses nothing. -/
structure Indexed (full : Prop) (cfg : Config) (c : Chain) (db : Database) : Prop where
  cursor : ∀ st, db.indexerState[cfg.chainID]? = some st → OnChain cfg c st
  sound : Sound cfg c (nextBlock cfg db) db
  complete : full → Complete cfg c (Below (nextBlock cfg db)) db

/-- What holds between any two calls of a run. -/
structure Held (full : Prop) (cfg : Config) (chains : Set Chain) (ix : Indexer) (db : Database) :
    Prop where
  indexed : ∃ g ∈ chains, Indexed full cfg g db
  genuine : Genuine cfg chains ix
  batch : 0 < ix.batchSize ∧ ix.batchSize ≤ cfg.blockBatchSize

/-- Every stored pair is in memory. -/
def Covers (ix : Indexer) (db : Database) : Prop :=
  ∀ (a : Address) p, db.pairs[a]? = some p → ∃ p', ix.knownPairs[a]? = some p'

instance : Decidable (Covers ix db) :=
  decidable_of_iff (∀ row ∈ db.pairs.toList, ix.knownPairs.contains row.1 = true) <| by
    constructor
    · intro h a p hp
      have hmem := h (a, p) (Std.ExtTreeMap.mem_toList_iff_getElem?_eq_some.mpr hp)
      rw [Std.ExtTreeMap.contains_eq_isSome_getElem?] at hmem
      exact Option.isSome_iff_exists.mp hmem
    · rintro h ⟨a, p⟩ hmem
      obtain ⟨p', hp'⟩ := h a p (Std.ExtTreeMap.mem_toList_iff_getElem?_eq_some.mp hmem)
      rw [Std.ExtTreeMap.contains_eq_isSome_getElem?, hp']
      rfl

/-- The chains of a network share the block of the deployment. -/
def SharedDeployment (cfg : Config) (chains : Set Chain) : Prop :=
  ∀ c ∈ chains, ∀ c' ∈ chains, ∀ b b', c.headerAt cfg.factoryDeployBlock = some b →
    c'.headerAt cfg.factoryDeployBlock = some b' → b.hash = b'.hash

/-- The calls of a Tick see one chain up to a height. -/
def Sees (o : Outside) (c : Chain) (top : Nat) : Prop :=
  ∀ k n, n ≤ top → (o.chain k)[n]? = (c)[n]?

theorem Sees.header (h : Sees o c top) (hn : n ≤ top) {k : Nat} :
    (o.chain k).headerAt n = c.headerAt n := Chain.headerAt_congr (h k n hn)

theorem nextBlock_of_some {st : IndexerState} (h : db.indexerState[cfg.chainID]? = some st) :
    nextBlock cfg db = st.lastProcessedBlock + 1 := by
  rw [nextBlock, h]

theorem lt_of_nextBlock_le {st : IndexerState} {n : Nat} (h : nextBlock cfg db ≤ n)
    (hst : db.indexerState[cfg.chainID]? = some st) : st.lastProcessedBlock < n := by
  rwa [nextBlock_of_some hst] at h

theorem Indexed.deployed (h : Indexed full cfg c db) : cfg.factoryDeployBlock ≤ nextBlock cfg db := by
  rcases hst : db.indexerState[cfg.chainID]? with _ | st
  · rw [nextBlock, hst]
  · rw [nextBlock_of_some hst]
    exact Nat.le_succ_of_le (h.cursor st hst).1

theorem Sound.congr (hnet : Chain.Network cfg chains) (hg : g ∈ chains)
    (hagree : HashChain.Agree g c n) (h : Sound cfg g (n + 1) db) : Sound cfg c (n + 1) db where
  blocks k b hget := by
    obtain ⟨hdeploy, hk, hb⟩ := h.blocks k b hget
    rw [← Chain.headerAt_congr (hagree k (Nat.le_of_lt_succ hk))]
    exact ⟨hdeploy, hk, hb⟩
  pairs := h.pairs.congr hnet hg hagree fun _ hl => Nat.le_of_lt_succ hl
  swaps := h.swaps.congr hnet hg hagree fun _ hl => Nat.le_of_lt_succ hl
  liquidityEvents := h.liquidityEvents.congr hnet hg hagree fun _ hl => Nat.le_of_lt_succ hl

theorem Complete.congr (hnet : Chain.Network cfg chains) (hc : c ∈ chains)
    (hagree : HashChain.Agree g c n) (h : Complete cfg g (Below (n + 1)) db) :
    Complete cfg c (Below (n + 1)) db where
  pairs := h.pairs.congr hnet hc hagree fun _ hl => Nat.le_of_lt_succ hl
  swaps := h.swaps.congr hnet hc hagree fun _ hl => Nat.le_of_lt_succ hl
  liquidityEvents := h.liquidityEvents.congr hnet hc hagree fun _ hl => Nat.le_of_lt_succ hl

/-- A cursor on a chain's block makes the index one of that chain. -/
theorem Indexed.move (hnet : Chain.Network cfg chains) (hg : g ∈ chains) (hc : c ∈ chains)
    (h : Indexed full cfg g db) {st : IndexerState} (hst : db.indexerState[cfg.chainID]? = some st)
    {b : Block} (hb : c.headerAt st.lastProcessedBlock = some b)
    (hhash : b.hash = st.lastProcessedBlockHash) : Indexed full cfg c db := by
  obtain ⟨hdeploy, b', hb', hhash'⟩ := h.cursor st hst
  have hagree := hnet.agree hg hc hb' hb (hhash'.trans hhash.symm)
  have hnext := nextBlock_of_some hst
  refine ⟨fun st' hst' => ?_, ?_, fun hfull => ?_⟩
  · obtain rfl := Option.some.inj (hst.symm.trans hst')
    exact ⟨hdeploy, b, hb, hhash⟩
  · rw [hnext]
    exact Sound.congr hnet hg hagree (hnext ▸ h.sound)
  · rw [hnext]
    exact Complete.congr hnet hc hagree (hnext ▸ h.complete hfull)

/-- Where the walk from a height may end: at the deployment, or on a stored block
that the chain has too. -/
structure Ancestor (cfg : Config) (c : Chain) (db : Database) (n m : Nat) : Prop where
  le : m ≤ n
  deployed : cfg.factoryDeployBlock ≤ m
  stored : m = cfg.factoryDeployBlock ∨ ∃ b b', db.blocks[m]? = some b ∧ c.headerAt m = some b' ∧
    b'.hash = b.hash

theorem Ancestor.succ {m : Nat} (h : Ancestor cfg c db n m) : Ancestor cfg c db (n + 1) m :=
  { h with le := Nat.le_succ_of_le h.le }

theorem walkBack_triple (hsees : Sees o c top) (hn : n ≤ top) (hdeploy : cfg.factoryDeployBlock ≤ n) :
    Triple (On (At ix db)) (walkBack cfg o n)
      (fun m => On fun ix' db' => At ix db ix' db' ∧ Ancestor cfg c db n m) (On (At ix db)) := by
  induction n with
  | zero => exact Triple.pure fun s hs => ⟨hs, Nat.le_refl _, hdeploy, Or.inl (by omega)⟩
  | succ n ih =>
    rw [walkBack]
    by_cases hle : n + 1 ≤ cfg.factoryDeployBlock
    · rw [if_pos hle]
      exact Triple.pure fun s hs => ⟨hs, Nat.le_refl _, hdeploy, Or.inl (by omega)⟩
    · rw [if_neg hle]
      have hrest : Triple (On (At ix db)) (walkBack cfg o n)
          (fun m => On fun ix' db' => At ix db ix' db' ∧ Ancestor cfg c db (n + 1) m)
          (On (At ix db)) :=
        Triple.conseq (ih (by omega) (by omega)) (fun _ hs => hs) (fun m s hs => ⟨hs.1, hs.2.succ⟩)
          fun _ hs => hs
      refine Triple.bind query_triple fun stored => ?_
      rcases stored with _ | stored
      · exact Triple.conseq hrest (fun s hs => hs.1) (fun _ _ hs => hs) fun _ hs => hs
      · refine Triple.bind (Triple.conseq headerByNumber_triple (fun _ hs => hs) (fun _ _ hs => hs)
          fun s hs => hs.1) fun h => ?_
        by_cases hh : h.hash = stored
        · rw [if_pos hh]
          refine Triple.pure fun s hs => ?_
          obtain ⟨⟨hat, hstored⟩, k, hk⟩ := hs
          rw [hsees.header (by omega)] at hk
          rw [hat.2] at hstored
          obtain ⟨b, hb, hbh⟩ := Option.map_eq_some_iff.mp hstored.symm
          exact ⟨hat, by omega, by omega, Or.inr ⟨b, h, hb, hk, hh.trans hbh.symm⟩⟩
        · rw [if_neg hh]
          exact Triple.conseq hrest (fun s hs => hs.1.1) (fun _ _ hs => hs) fun _ hs => hs

theorem headerAt_of_le {m : Nat} {b : Block} (hb : c.headerAt n = some b) (hm : m ≤ n) :
    ∃ b', c.headerAt m = some b' := by
  obtain ⟨mined, hmined, -⟩ := Chain.headerAt_eq_some.mp hb
  obtain ⟨hlt, -⟩ := List.getElem?_eq_some_iff.mp hmined
  exact ⟨_, Chain.headerAt_eq_some.mpr ⟨_, List.getElem?_eq_getElem (Nat.lt_of_le_of_lt hm hlt), rfl⟩⟩

theorem Ancestor.agree (hnet : Chain.Network cfg chains) (hshared : SharedDeployment cfg chains)
    (hg : g ∈ chains) (hc : c ∈ chains) (h : Indexed full cfg g db) {st : IndexerState}
    (hst : db.indexerState[cfg.chainID]? = some st) {m : Nat}
    (hm : Ancestor cfg c db st.lastProcessedBlock m) {b : Block} (hb : c.headerAt m = some b) :
    HashChain.Agree g c m := by
  rcases hm.stored with rfl | ⟨b₁, b₂, hb₁, hb₂, hhash⟩
  · obtain ⟨hdeploy, b', hb', -⟩ := h.cursor st hst
    obtain ⟨b'', hb''⟩ := headerAt_of_le hb' hdeploy
    exact hnet.agree hg hc hb'' hb (hshared g hg c hc b'' b hb'' hb)
  · exact hnet.agree hg hc (h.sound.blocks m b₁ hb₁).2.2 hb₂ hhash.symm

theorem Indexed.rollback (hnet : Chain.Network cfg chains) (hshared : SharedDeployment cfg chains)
    (hg : g ∈ chains) (hc : c ∈ chains) (h : Indexed full cfg g db) {st : IndexerState}
    (hst : db.indexerState[cfg.chainID]? = some st) {m : Nat}
    (hm : Ancestor cfg c db st.lastProcessedBlock m) {b : Block} (hb : c.headerAt m = some b)
    (hrun : runAll (Database.rollbackFrom (m + 1)) db = some db') :
    Indexed full cfg c ((cursorAt cfg m b).effect db') := by
  have hagree := hm.agree hnet hshared hg hc h hst hb
  have hcursor := cursorAt_effect cfg m b db'
  have hnext : nextBlock cfg ((cursorAt cfg m b).effect db') = m + 1 := nextBlock_of_some hcursor
  have hsound : Sound cfg c (m + 1) db' := (h.sound.rollback hrun).congr hnet hg hagree
  refine ⟨fun st' hst' => ?_, ?_, fun hfull => ?_⟩
  · obtain rfl := Option.some.inj (hcursor.symm.trans hst')
    exact ⟨hm.deployed, b, hb, rfl⟩
  · rw [hnext]
    exact { hsound with }
  · have hle : m + 1 ≤ nextBlock cfg db := by
      rw [nextBlock_of_some hst]
      exact Nat.succ_le_succ hm.le
    have hcomplete := ((h.complete hfull).rollback hnet hg h.sound hle hrun).congr hnet hc hagree
    rw [hnext]
    exact { hcomplete with }

/-- A rollback and the cursor at its end. -/
def RolledBack (cfg : Config) (o : Outside) (m : Nat) (db db' : Database) : Prop :=
  ∃ db₁ k b, runAll (Database.rollbackFrom (m + 1)) db = some db₁ ∧
    (o.chain k).headerAt m = some b ∧ db' = (cursorAt cfg m b).effect db₁

theorem writeRollback_triple (ix : Indexer) (db : Database) {m : Nat} :
    Triple (On (At ix db))
      (Prog.forEach (exec o) (Database.rollbackFrom (m + 1)) >>= fun _ =>
        headerByNumber o m >>= fun h => setCursor cfg o m h)
      (fun _ => On fun ix' db' => ix' = ix ∧ RolledBack cfg o m db db')
      (On fun ix' _ => ix' = ix) := by
  refine Triple.bind (execAll_triple ix db (Database.rollbackFrom (m + 1))) fun _ => ?_
  refine Triple.bind (Triple.conseq headerByNumber_triple (fun _ hs => hs) (fun _ _ hs => hs)
    fun _ hs => hs.1) fun b => ?_
  refine Triple.conseq (exec_triple (Q := fun ix' db' => ix' = ix ∧ RolledBack cfg o m db db') ?_)
    (fun _ hs => hs) (fun _ _ hs => hs) fun _ hs => hs.1.1
  rintro ix' db' ⟨⟨hix, hrun⟩, k, hk⟩ -
  rw [List.map_id'] at hrun
  exact ⟨hix, db', k, b, hrun, hk, rfl⟩

theorem rollBackTo_triple (ix : Indexer) (db : Database) {m : Nat} :
    Triple (On (At ix db)) (rollBackTo cfg o m)
      (fun _ => On fun ix' db' => ix' = ix ∧ RolledBack cfg o m db db')
      (On fun ix' db' => ix' = ix ∧ (db' = db ∨ RolledBack cfg o m db db')) := by
  refine inBlockTx_triple (fun before => ?_) (fun ix' db' hat => ⟨hat.1, Or.inl hat.2⟩)
    fun ix' db' h => ⟨h.1, Or.inr h.2⟩
  rintro s ⟨hat, hbefore⟩
  have hdb : before = db := hbefore.symm.trans hat.2
  exact Triple.conseq (writeRollback_triple ix db) (fun _ hs => hs)
    (fun _ t ht => ⟨ht, ht.1, Or.inl hdb⟩) (fun t ht => ⟨ht, Or.inl hdb⟩) s hat

theorem loadPairs_rows (ix : Indexer)
    (hkeys : ∀ (a : Address) p, db.pairs[a]? = some p → p.address = a) :
    loadPairs { ix with knownPairs := ∅ } db.pairs.rows = { ix with knownPairs := db.pairs } := by
  rw [loadPairs, Table.foldl_insert_rows hkeys]

theorem reloadPairs_triple (ix : Indexer) (db : Database)
    (hkeys : ∀ (a : Address) p, db.pairs[a]? = some p → p.address = a) :
    Triple (On (At ix db)) (reloadPairs o) (fun _ => On (At { ix with knownPairs := db.pairs } db))
      (On (At { ix with knownPairs := ∅ } db)) := by
  refine Triple.bind (remember_triple (Q := At { ix with knownPairs := ∅ } db) ?_) fun _ => ?_
  · rintro ix' db' ⟨rfl, rfl⟩
    exact ⟨rfl, rfl⟩
  · refine Triple.bind query_triple fun pairs => remember_triple ?_
    rintro ix' db' ⟨⟨rfl, rfl⟩, rfl⟩
    exact ⟨loadPairs_rows ix hkeys, rfl⟩

theorem Indexed.keys (h : Indexed full cfg c db) (a : Address) (p : Pair)
    (hp : db.pairs[a]? = some p) : p.address = a := (h.sound.pairs a p hp).1

theorem Sound.isPair (h : Sound cfg c n db) {a : Address} {p : Pair} (hp : db.pairs[a]? = some p) :
    c.IsPair cfg a := by
  obtain ⟨hkey, l, b, hentry, -⟩ := h.pairs a p hp
  obtain ⟨-, ev, hcreated⟩ := pairEntry_fields hentry
  have haddress : p.address = a := hkey
  rw [haddress] at hcreated
  exact ⟨l, ev, hcreated⟩

theorem Indexed.isPair (h : Indexed full cfg c db) {a : Address} {p : Pair}
    (hp : db.pairs[a]? = some p) : c.IsPair cfg a := h.sound.isPair hp

theorem genuine_empty : Genuine cfg chains { ix with knownPairs := ∅ } := by
  intro a p hp
  simp at hp

/-- The next range does not reach past the numbers of blocks there are. -/
def Fits (cfg : Config) (ix : Indexer) (db : Database) : Prop :=
  nextBlock cfg db + ix.batchSize ≤ 2 ^ 64

instance : Decidable (Fits cfg ix db) := inferInstanceAs (Decidable (_ ≤ _))

/-- What the check establishes: an index of the node's chain, all of whose pairs
are in memory. -/
structure Checked (full : Prop) (cfg : Config) (chains : Set Chain) (c : Chain) (ix : Indexer)
    (db : Database) : Prop where
  indexed : Indexed full cfg c db
  genuine : Genuine cfg chains ix
  batch : 0 < ix.batchSize ∧ ix.batchSize ≤ cfg.blockBatchSize
  covers : full → Covers ix db
  fits : Fits cfg ix db

theorem Checked.held (h : Checked full cfg chains c ix db) (hc : c ∈ chains) :
    Held full cfg chains ix db := ⟨⟨c, hc, h.indexed⟩, h.genuine, h.batch⟩

theorem recover_triple (hnet : Chain.Network cfg chains) (hshared : SharedDeployment cfg chains)
    (hc : c ∈ chains) (hsees : Sees o c top) (hheld : Held full cfg chains ix db)
    (hfits : Fits cfg ix db) {st : IndexerState} (hst : db.indexerState[cfg.chainID]? = some st)
    (htop : st.lastProcessedBlock ≤ top) :
    Triple (On (At ix db)) (recover cfg o st) (fun _ => On (Checked full cfg chains c))
      (On (Held full cfg chains)) := by
  obtain ⟨g, hg, hindexed⟩ := hheld.indexed
  have hrolled : ∀ m db', Ancestor cfg c db st.lastProcessedBlock m → RolledBack cfg o m db db' →
      Indexed full cfg c db' := by
    rintro m db' hm ⟨db₁, k, b, hrun, hb, rfl⟩
    rw [hsees.header (Nat.le_trans hm.le htop)] at hb
    exact hindexed.rollback hnet hshared hg hc hst hm hb hrun
  have hfits' : ∀ m db', Ancestor cfg c db st.lastProcessedBlock m → RolledBack cfg o m db db' →
      Fits cfg ix db' := by
    rintro m db' hm ⟨db₁, k, b, hrun, hb, rfl⟩
    have hle := hm.le
    rw [Fits, nextBlock_of_some hst] at hfits
    rw [Fits, nextBlock_of_some (cursorAt_effect cfg m b db₁)]
    dsimp only
    omega
  refine Triple.bind (Triple.conseq (walkBack_triple hsees htop (hindexed.cursor st hst).1)
    (fun _ hs => hs) (fun _ _ hs => hs) ?_) fun m => ?_
  · rintro s ⟨hix, hdb⟩
    rw [On, hix, hdb]
    exact hheld
  · rintro s ⟨hat, hm⟩
    refine Triple.bind (Q := fun _ => On fun ix' db' => ix' = ix ∧ RolledBack cfg o m db db')
      (Triple.conseq (rollBackTo_triple ix db) (fun _ hs => hs) (fun _ _ hs => hs) ?_)
      (fun _ => ?_) s hat
    · rintro t ⟨hix, hdb | hrolledBack⟩
      · rw [On, hix, hdb]
        exact hheld
      · rw [On, hix]
        exact ⟨⟨c, hc, hrolled m t.db hm hrolledBack⟩, hheld.genuine, hheld.batch⟩
    · rintro t ⟨hix, hrolledBack⟩
      have hnew := hrolled m t.db hm hrolledBack
      refine Triple.conseq (reloadPairs_triple ix t.db hnew.keys) (fun _ hs => hs) ?_ ?_ t ⟨hix, rfl⟩
      · rintro - r ⟨hix', hdb'⟩
        rw [On, hix', hdb']
        exact ⟨hnew, fun a p hp => ⟨c, hc, hnew.isPair hp⟩, hheld.batch, fun _ a p hp => ⟨p, hp⟩,
          hfits' m t.db hm hrolledBack⟩
      · rintro r ⟨hix', hdb'⟩
        rw [On, hix', hdb']
        exact ⟨⟨c, hc, hnew⟩, genuine_empty, hheld.batch⟩

/-- On a fresh database there is nothing to check: an index of no blocks is one
of every chain. -/
theorem Indexed.fresh (hnet : Chain.Network cfg chains) (hg : g ∈ chains) (hc : c ∈ chains)
    (h : Indexed full cfg g db) (hst : db.indexerState[cfg.chainID]? = none) :
    Indexed full cfg c db := by
  have hnext : nextBlock cfg db = cfg.factoryDeployBlock := by rw [nextBlock, hst]
  have hsound := h.sound
  rw [hnext] at hsound
  have hnone : ∀ {c : Chain}, c ∈ chains → ∀ l, c.Relevant cfg l →
      ¬Below cfg.factoryDeployBlock l := fun hc l hl => Nat.not_lt_of_le (hnet.deployed hc hl)
  refine ⟨fun st hst' => ?_, ?_, fun _ => ?_⟩
  · rw [hst] at hst'
    cases hst'
  · rw [hnext]
    refine ⟨fun n b hb => ?_, fun k p hp => ?_, fun k s hs => ?_, fun k e he => ?_⟩
    · obtain ⟨hle, hlt, -⟩ := hsound.blocks n b hb
      omega
    · obtain ⟨-, l, b, hentry, hl⟩ := hsound.pairs k p hp
      exact (hnone hg l hentry.relevant hl).elim
    · obtain ⟨-, l, b, hentry, hl⟩ := hsound.swaps k s hs
      exact (hnone hg l hentry.relevant hl).elim
    · obtain ⟨-, l, b, hentry, hl⟩ := hsound.liquidityEvents k e he
      exact (hnone hg l hentry.relevant hl).elim
  · rw [hnext]
    exact ⟨fun l b r hentry hl => (hnone hc l hentry.relevant hl).elim,
      fun l b r hentry hl => (hnone hc l hentry.relevant hl).elim,
      fun l b r hentry hl => (hnone hc l hentry.relevant hl).elim⟩

theorem checkReorg_triple (hnet : Chain.Network cfg chains) (hshared : SharedDeployment cfg chains)
    (hc : c ∈ chains) (hsees : Sees o c top) (hheld : Held full cfg chains ix db)
    (hcovers : full → Covers ix db) (hfits : Fits cfg ix db)
    (htop : ∀ st, db.indexerState[cfg.chainID]? = some st → st.lastProcessedBlock ≤ top) :
    Triple (On (At ix db)) (checkReorg cfg o) (fun _ => On (Checked full cfg chains c))
      (On (Held full cfg chains)) := by
  obtain ⟨g, hg, hindexed⟩ := hheld.indexed
  have hsame : ∀ s, On (At ix db) s → On (Held full cfg chains) s := by
    rintro s ⟨hix, hdb⟩
    rw [On, hix, hdb]
    exact hheld
  refine Triple.bind (Triple.conseq query_triple (fun _ hs => hs) (fun _ _ hs => hs) hsame)
    fun st => ?_
  rcases st with _ | st
  · refine Triple.pure fun s hs => ?_
    obtain ⟨⟨hix, hdb⟩, hst⟩ := hs
    rw [hdb] at hst
    rw [On, hix, hdb]
    exact ⟨hindexed.fresh hnet hg hc hst.symm, hheld.genuine, hheld.batch, hcovers, hfits⟩
  · refine Triple.bind (Triple.conseq headerByNumber_triple (fun _ hs => hs) (fun _ _ hs => hs)
      fun s hs => hsame s hs.1) fun b => ?_
    rintro s ⟨⟨hat, hst⟩, k, hk⟩
    rw [hat.2] at hst
    rw [hsees.header (htop st hst.symm)] at hk
    by_cases hhash : b.hash = st.lastProcessedBlockHash
    · rw [if_pos hhash]
      refine Triple.pure (P := On (At ix db)) (fun t ht => ?_) s hat
      rw [On, ht.1, ht.2]
      exact ⟨hindexed.move hnet hg hc hst.symm hk hhash, hheld.genuine, hheld.batch, hcovers, hfits⟩
    · rw [if_neg hhash]
      exact recover_triple hnet hshared hc hsees hheld hfits hst.symm (htop st hst.symm) s hat

/-- On its own chain an index has nothing to roll back. -/
theorem checkReorg_same (hsees : Sees o c top) (hindexed : Indexed full cfg c db)
    (htop : ∀ st, db.indexerState[cfg.chainID]? = some st → st.lastProcessedBlock ≤ top) :
    Triple (On (At ix db)) (checkReorg cfg o) (fun _ => On (At ix db)) (On (At ix db)) := by
  refine Triple.bind query_triple fun st => ?_
  rcases st with _ | st
  · exact Triple.pure fun s hs => hs.1
  · refine Triple.bind (Triple.conseq headerByNumber_triple (fun _ hs => hs) (fun _ _ hs => hs)
      fun s hs => hs.1) fun b => ?_
    rintro s ⟨⟨hat, hst⟩, k, hk⟩
    rw [hat.2] at hst
    rw [hsees.header (htop st hst.symm)] at hk
    obtain ⟨-, b', hb', hhash⟩ := hindexed.cursor st hst.symm
    obtain rfl := Option.some.inj (hk.symm.trans hb')
    rw [if_pos hhash]
    refine Triple.pure (P := On (At ix db)) (fun t ht => ?_) s hat
    exact ht

end Indexer

end ArkSwap.GoInternal
