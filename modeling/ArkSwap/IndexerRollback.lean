import ArkSwap.IndexerExact

/-! A rollback leaves of an exact index the exact index up to the lower height:
no row above it stays, and no row below it goes with a deleted pair. -/

namespace ArkSwap.GoInternal

namespace Indexer

variable {cfg : Config} {c : Chain} {chains : Set Chain} {db db' : Database} {m n : Nat}
variable {statements : List Statement}

theorem runAll_effect (h : runAll statements db = some db') :
    db' = statements.foldl (fun db st => st.effect db) db := by
  induction statements generalizing db with
  | nil => exact (Option.some.inj h).symm
  | cons st statements ih =>
    rw [runAll, List.foldlM_cons] at h
    obtain ⟨db₁, h₁, hrest⟩ := Option.bind_eq_some_iff.mp h
    rw [Statement.run] at h₁
    split at h₁
    · cases h₁
      exact ih hrest
    · cases h₁

/-- The events left by a rollback. -/
def rolledBack {R : Type} (n : Nat) (blockOf : R → Nat) (addressOf : R → Address)
    (stored left : Table Address Pair) (rows : Table (Word × Nat) R) : Table (Word × Nat) R :=
  (rows.deleteWhere fun _ row => n ≤ blockOf row).deleteWhere fun _ row =>
    stored.contains (addressOf row) && !left.contains (addressOf row)

theorem rollback_fields (h : runAll (Database.rollbackFrom n) db = some db') :
    db'.indexerState = db.indexerState ∧ db'.tokens = db.tokens ∧
      db'.blocks = db.blocks.deleteWhere (fun number _ => n ≤ number) ∧
      db'.pairs = db.pairs.deleteWhere (fun _ p => n ≤ p.createdBlock) ∧
      db'.swaps = rolledBack n Swap.blockNumber Swap.pairAddress db.pairs db'.pairs db.swaps ∧
      db'.liquidityEvents = rolledBack n LiquidityEvent.blockNumber LiquidityEvent.pairAddress
        db.pairs db'.pairs db.liquidityEvents := by
  rw [runAll_effect h]
  exact ⟨rfl, rfl, rfl, rfl, rfl, rfl⟩

theorem pairEntry_fields {l : Log} {b : Block} {p : Pair}
    (h : pairFeed.Entry cfg c l b p.raw) :
    p.createdBlock = l.blockNumber ∧ ∃ ev, c.Created cfg p.address l ev := by
  obtain ⟨htopic, ev, hev, hp⟩ := pairOf_eq_some.mp h.row
  have hblock := congrArg Pair.createdBlock hp
  have haddress := congrArg Pair.address hp
  have hpair : ev.pair = p.address := haddress
  exact ⟨hblock.symm, ev, hpair ▸ h.relevant.created htopic hev⟩

/-- What makes the rows of a feed events of pairs. -/
structure EventFeed {R : Type} (feed : Feed (Word × Nat) R) (blockOf : R → Nat)
    (addressOf : R → Address) : Prop where
  raw : ∀ b l r, feed.rowOf b l = some r → feed.raw r = r
  topic : ∀ b l r, feed.rowOf b l = some r → Chain.PairTopic l
  block : ∀ b l row, feed.rowOf b l = some (feed.raw row) → blockOf row = l.blockNumber
  address : ∀ b l row, feed.rowOf b l = some (feed.raw row) → addressOf row = l.address
  key : ∀ b l row, feed.rowOf b l = some (feed.raw row) → feed.keyOf row = (l.txHash, l.index)

theorem swapFeed_event : EventFeed (swapFeed cfg) Swap.blockNumber Swap.pairAddress where
  raw _ _ _ h := swapOf_raw h
  topic _ _ _ h := ⟨.swap, by decide, (swapOf_eq_some.mp h).1⟩
  block _ _ _ h := by
    obtain ⟨-, ev, -, hs⟩ := swapOf_eq_some.mp h
    exact (congrArg Swap.blockNumber hs).symm
  address _ _ _ h := by
    obtain ⟨-, ev, -, hs⟩ := swapOf_eq_some.mp h
    exact (congrArg Swap.pairAddress hs).symm
  key _ _ _ h := by
    obtain ⟨-, ev, -, hs⟩ := swapOf_eq_some.mp h
    exact (congrArg Swap.key hs).symm

theorem liquidityFeed_event :
    EventFeed (liquidityFeed cfg) LiquidityEvent.blockNumber LiquidityEvent.pairAddress where
  raw _ _ _ h := (liquidityOf_fields h).2.1
  topic _ _ _ h := by
    obtain ⟨htopic | htopic, -⟩ := liquidityOf_fields h
    · exact ⟨.mint, by decide, htopic⟩
    · exact ⟨.burn, by decide, htopic⟩
  block _ _ _ h := (liquidityOf_fields h).2.2.2.1
  address _ _ _ h := (liquidityOf_fields h).2.2.2.2
  key _ _ _ h := (liquidityOf_fields h).2.2.1

section Events

variable {R : Type} {feed : Feed (Word × Nat) R} {blockOf : R → Nat} {addressOf : R → Address}
variable {rows : Table (Word × Nat) R} {stored left : Table Address Pair}

theorem EventFeed.sound_rolledBack (hf : EventFeed feed blockOf addressOf)
    (h : feed.Sound cfg c (Below m) rows) :
    feed.Sound cfg c (Below n) (rolledBack n blockOf addressOf stored left rows) := by
  have hbelow : feed.Sound cfg c (Below n) (rows.deleteWhere fun _ row => n ≤ blockOf row) := by
    refine h.deleteWhere fun l b row hentry _ hkeep => ?_
    rw [decide_eq_false_iff_not, hf.block b l row hentry.row] at hkeep
    exact Nat.lt_of_not_le hkeep
  exact hbelow.deleteWhere fun l b row _ hl _ => hl

theorem EventFeed.same_log (hf : EventFeed feed blockOf addressOf) (hc : c.WellFormed cfg)
    (hsound : feed.Sound cfg c (Below m) rows) {l : Log} {b : Block} {r row : R}
    (hentry : feed.Entry cfg c l b r) (hget : rows[feed.keyOf r]? = some row) :
    feed.rowOf b l = some (feed.raw row) := by
  obtain ⟨hkey, l', b', hentry', -⟩ := hsound _ row hget
  have hr := hf.raw b l r hentry.row
  have hl : feed.rowOf b l = some (feed.raw r) := by
    rw [hr]
    exact hentry.row
  rw [hf.key b' l' row hentry'.row, hf.key b l r hl, Prod.mk.injEq] at hkey
  obtain rfl := hc.unique l' l hentry'.relevant.1 hentry.relevant.1 hkey.1 hkey.2
  obtain rfl := Option.some.inj (hentry.header.symm.trans hentry'.header)
  exact hentry'.row

/-- The pair of an event below the height is created below it, so it stays. -/
theorem pair_stays (hnet : Chain.Network cfg chains) (hc : c ∈ chains)
    (hpairs : pairFeed.Complete cfg c (Below n) left) {l : Log} (hrel : c.Relevant cfg l)
    (htopic : Chain.PairTopic l) (hl : l.blockNumber < n) : left.contains l.address = true := by
  obtain ⟨hemits, ⟨-, hcreated⟩ | ⟨hispair, -⟩⟩ := hrel
  · obtain ⟨t, ht, htopic⟩ := htopic
    rw [hcreated] at htopic
    obtain rfl := Option.some.inj htopic
    exact absurd ht (by decide)
  · obtain ⟨k, ev, hk, hkl⟩ := hnet.created_first c hc c hc l hemits hispair htopic
    obtain ⟨b, hb⟩ := hk.emits.header
    have hentry : pairFeed.Entry cfg c k b (createdPair b k ev) :=
      ⟨⟨hk.emits, Or.inl ⟨hk.factory, hk.topic⟩⟩, hb,
        pairOf_eq_some.mpr ⟨hk.topic, ev, hk.decoded, rfl⟩⟩
    obtain ⟨p, hp⟩ := hpairs k b _ hentry (Nat.lt_of_le_of_lt hkl.le hl)
    have haddress : pairFeed.keyOf (createdPair b k ev) = l.address := hk.pair
    rw [haddress] at hp
    rw [Std.ExtTreeMap.contains_eq_isSome_getElem?, hp]
    rfl

theorem EventFeed.complete_rolledBack (hnet : Chain.Network cfg chains) (hc : c ∈ chains)
    (hf : EventFeed feed blockOf addressOf) (hsound : feed.Sound cfg c (Below m) rows)
    (h : feed.Complete cfg c (Below m) rows) (hnm : n ≤ m)
    (hpairs : pairFeed.Complete cfg c (Below n) left) :
    feed.Complete cfg c (Below n) (rolledBack n blockOf addressOf stored left rows) := by
  have hbelow : feed.Complete cfg c (Below n) (rows.deleteWhere fun _ row => n ≤ blockOf row) := by
    refine h.deleteWhere (fun l hl => Nat.lt_of_lt_of_le hl hnm) fun l b r row hentry hl hget => ?_
    have hrow := hf.same_log (hnet.wellFormed c hc) hsound hentry hget
    rw [decide_eq_false_iff_not, hf.block b l row hrow]
    exact Nat.not_le_of_lt hl
  refine hbelow.deleteWhere (fun _ hl => hl) fun l b r row hentry hl hget => ?_
  have hrow := hf.same_log (hnet.wellFormed c hc) hsound hentry (Table.get_deleteWhere.mp hget).1
  rw [hf.address b l row hrow,
    pair_stays hnet hc hpairs hentry.relevant (hf.topic b l r hentry.row) hl]
  simp

end Events

theorem Sound.rollback (h : Sound cfg c m db)
    (hrun : runAll (Database.rollbackFrom n) db = some db') : Sound cfg c n db' := by
  obtain ⟨-, -, hblocks, hpairs, hswaps, hliquidity⟩ := rollback_fields hrun
  refine ⟨fun k b hget => ?_, ?_, ?_, ?_⟩
  · rw [hblocks, Table.get_deleteWhere, decide_eq_false_iff_not] at hget
    exact ⟨(h.blocks k b hget.1).1, by omega, (h.blocks k b hget.1).2.2⟩
  · rw [hpairs]
    refine h.pairs.deleteWhere fun l b p hentry _ hkeep => ?_
    rw [decide_eq_false_iff_not, (pairEntry_fields hentry).1] at hkeep
    exact Nat.lt_of_not_le hkeep
  · rw [hswaps]
    exact swapFeed_event.sound_rolledBack h.swaps
  · rw [hliquidity]
    exact liquidityFeed_event.sound_rolledBack h.liquidityEvents

theorem Complete.rollback (hnet : Chain.Network cfg chains) (hc : c ∈ chains)
    (hsound : Sound cfg c m db) (h : Complete cfg c (Below m) db) (hnm : n ≤ m)
    (hrun : runAll (Database.rollbackFrom n) db = some db') : Complete cfg c (Below n) db' := by
  obtain ⟨-, -, -, hpairs, hswaps, hliquidity⟩ := rollback_fields hrun
  have hpairs' : pairFeed.Complete cfg c (Below n) db'.pairs := by
    rw [hpairs]
    refine h.pairs.deleteWhere (fun l hl => Nat.lt_of_lt_of_le hl hnm) fun l b r p hentry hl hget => ?_
    obtain ⟨hkey, l', b', hentry', -⟩ := hsound.pairs _ p hget
    obtain ⟨hblock, ev', hl'⟩ := pairEntry_fields hentry'
    have hr : r.raw = r := pairOf_raw hentry.row
    rw [← hr] at hentry
    obtain ⟨-, ev, hl''⟩ := pairEntry_fields hentry
    have haddress : p.address = r.address := hkey
    rw [← haddress] at hl''
    obtain rfl := (hnet.wellFormed c hc).created_once _ _ _ _ _ hl'' hl'
    rw [decide_eq_false_iff_not, hblock]
    exact Nat.not_le_of_lt hl
  refine ⟨hpairs', ?_, ?_⟩
  · rw [hswaps]
    exact swapFeed_event.complete_rolledBack hnet hc hsound.swaps h.swaps hnm hpairs'
  · rw [hliquidity]
    exact liquidityFeed_event.complete_rolledBack hnet hc hsound.liquidityEvents h.liquidityEvents
      hnm hpairs'

end Indexer

end ArkSwap.GoInternal
