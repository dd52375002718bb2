import ArkSwap.IndexerTables

/-! The tables of an index of a chain up to a height: what one log, and then a
whole block, adds to them, and what a rollback leaves. -/

namespace ArkSwap.GoInternal

/-- The part of a stored pair that its creation determines. -/
def Pair.raw (p : Pair) : Pair := { p with reserve0 := 0, reserve1 := 0, lastSyncBlock := none }

def Swap.raw (s : Swap) : Swap :=
  { s with direction := .unknown, tokenInAddress := none, tokenOutAddress := none,
           amountIn := none, amountOut := none, amountUSD := none }

def LiquidityEvent.raw (e : LiquidityEvent) : LiquidityEvent := { e with amountUSD := none }

namespace Indexer

def pairOf (b : Block) (l : Log) : Option Pair :=
  if l.topic = some .pairCreated then (decodePairCreated l).map (createdPair b l) else none

def swapOf (cfg : Config) (b : Block) (l : Log) : Option Swap :=
  if l.topic = some .swap then (decodeSwap l).map (swapRow cfg b l) else none

def liquidityOf (cfg : Config) (b : Block) (l : Log) : Option LiquidityEvent :=
  match l.topic with
  | some .mint => (decodeMint l).map fun ev =>
      liquidityRow cfg b l .mint ev.sender none ev.amount0 ev.amount1
  | some .burn => (decodeBurn l).map fun ev =>
      liquidityRow cfg b l .burn ev.sender (some ev.recipient) ev.amount0 ev.amount1
  | _ => none

theorem pairOf_eq_some {b : Block} {l : Log} {p : Pair} :
    pairOf b l = some p ↔ l.topic = some .pairCreated ∧
      ∃ ev, decodePairCreated l = some ev ∧ createdPair b l ev = p := by
  rw [pairOf]
  split <;> simp_all

theorem swapOf_eq_some {cfg : Config} {b : Block} {l : Log} {s : Swap} :
    swapOf cfg b l = some s ↔ l.topic = some .swap ∧
      ∃ ev, decodeSwap l = some ev ∧ swapRow cfg b l ev = s := by
  rw [swapOf]
  split <;> simp_all

theorem liquidityOf_fields {cfg : Config} {b : Block} {l : Log} {e : LiquidityEvent}
    (h : liquidityOf cfg b l = some e) :
    (l.topic = some .mint ∨ l.topic = some .burn) ∧ e.raw = e ∧ e.key = (l.txHash, l.index) ∧
      e.blockNumber = l.blockNumber ∧ e.pairAddress = l.address := by
  unfold liquidityOf at h
  split at h
  · rename_i htopic
    obtain ⟨ev, -, rfl⟩ := Option.map_eq_some_iff.mp h
    exact ⟨Or.inl htopic, rfl, rfl, rfl, rfl⟩
  · rename_i htopic
    obtain ⟨ev, -, rfl⟩ := Option.map_eq_some_iff.mp h
    exact ⟨Or.inr htopic, rfl, rfl, rfl, rfl⟩
  · cases h

def pairFeed : Feed Address Pair where
  rowOf := pairOf
  raw := Pair.raw
  keyOf := Pair.address
  keyOf_raw _ := rfl
  concerns _ _ _ h := Or.inl (pairOf_eq_some.mp h).1

def swapFeed (cfg : Config) : Feed (Word × Nat) Swap where
  rowOf := swapOf cfg
  raw := Swap.raw
  keyOf := Swap.key
  keyOf_raw _ := rfl
  concerns _ _ _ h := Or.inr ⟨.swap, by decide, (swapOf_eq_some.mp h).1⟩

def liquidityFeed (cfg : Config) : Feed (Word × Nat) LiquidityEvent where
  rowOf := liquidityOf cfg
  raw := LiquidityEvent.raw
  keyOf := LiquidityEvent.key
  keyOf_raw _ := rfl
  concerns _ _ _ h := by
    obtain ⟨htopic | htopic, -⟩ := liquidityOf_fields h
    · exact Or.inr ⟨.mint, by decide, htopic⟩
    · exact Or.inr ⟨.burn, by decide, htopic⟩

theorem valuedSwap_raw (ix : Indexer) (s : Swap) (p : Pair) :
    ((ix.valuedSwap s p).stored).raw = s.raw := by
  rw [valuedSwap, Swap.stored, Swap.raw, Swap.raw, normalizeSwap]
  split
  · rfl
  · split <;> rfl

theorem valuedSwap_key (ix : Indexer) (s : Swap) (p : Pair) :
    ((ix.valuedSwap s p).stored).key = s.key := by
  rw [valuedSwap, Swap.stored, Swap.key, Swap.key, normalizeSwap]
  split
  · rfl
  · split <;> rfl

variable {cfg : Config} {header : Block} {ix ix' : Indexer} {db db' : Database} {l : Log}

/-- The statements that logs ask for, with the memory each leaves. -/
inductive Applied (cfg : Config) (header : Block) (ix : Indexer) (l : Log) :
    Statement → Indexer → Prop where
  | created (p : Pair) (h : pairOf header l = some p) :
      Applied cfg header ix l (Database.upsertPair p)
        (ix.addPair p)
  | synced (ev : SyncEvent) (htopic : l.topic = some .sync) (h : decodeSync l = some ev) :
      Applied cfg header ix l
        (Database.setPairReserves l.address ev.reserve0 ev.reserve1 l.blockNumber)
        (ix.syncPair l.address ev.reserve0 ev.reserve1 l.blockNumber)
  | swapped (s : Swap) (p : Pair) (h : swapOf cfg header l = some s)
      (hp : ix.knownPairs[l.address]? = some p) :
      Applied cfg header ix l (Database.insertSwap (ix.valuedSwap s p)) ix
  | deposited (e : LiquidityEvent) (h : liquidityOf cfg header l = some e) :
      Applied cfg header ix l (Database.insertLiquidityEvent (ix.valuedLiquidity e)) ix

theorem applied_of_applyLog {statement : Statement}
    (h : applyLog cfg header ix l = some (statement, ix')) :
    Applied cfg header ix l statement ix' := by
  unfold applyLog at h
  split at h
  · rename_i htopic
    obtain ⟨ev, hev, heq⟩ := Option.map_eq_some_iff.mp h
    cases heq
    exact .created _ (pairOf_eq_some.mpr ⟨htopic, ev, hev, rfl⟩)
  · rename_i htopic
    obtain ⟨ev, hev, heq⟩ := Option.map_eq_some_iff.mp h
    cases heq
    exact .synced ev htopic hev
  · rename_i htopic
    split at h
    · rename_i ev p hev hp
      cases h
      exact .swapped _ p (swapOf_eq_some.mpr ⟨htopic, ev, hev, rfl⟩) hp
    · cases h
  · rename_i htopic
    obtain ⟨ev, hev, heq⟩ := Option.map_eq_some_iff.mp h
    cases heq
    refine .deposited _ ?_
    rw [liquidityOf, htopic]
    exact Option.map_eq_some_iff.mpr ⟨ev, hev, rfl⟩
  · rename_i htopic
    obtain ⟨ev, hev, heq⟩ := Option.map_eq_some_iff.mp h
    cases heq
    refine .deposited _ ?_
    rw [liquidityOf, htopic]
    exact Option.map_eq_some_iff.mpr ⟨ev, hev, rfl⟩
  · cases h

/-- A log that asks for nothing has no row, or is the swap of an unknown pair. -/
theorem skipped_of_applyLog (h : applyLog cfg header ix l = none) :
    pairOf header l = none ∧ liquidityOf cfg header l = none ∧
      (swapOf cfg header l = none ∨ ix.knownPairs[l.address]? = none) := by
  unfold applyLog at h
  rw [pairOf, liquidityOf, swapOf]
  split at h
  · rename_i htopic
    rw [htopic]
    rw [Option.map_eq_none_iff] at h
    simp [h]
  · rename_i htopic
    simp [htopic]
  · rename_i htopic
    rw [htopic]
    split at h
    · cases h
    · rename_i hnone
      refine ⟨by simp, rfl, ?_⟩
      rcases hev : decodeSwap l with _ | ev
      · exact Or.inl (by simp)
      · rcases hp : ix.knownPairs[l.address]? with _ | p
        · exact Or.inr rfl
        · exact (hnone ev p hev hp).elim
  · rename_i htopic
    rw [htopic]
    rw [Option.map_eq_none_iff] at h
    simp [h]
  · rename_i htopic
    rw [htopic]
    rw [Option.map_eq_none_iff] at h
    simp [h]
  · rename_i hpair hsync hswap hmint hburn
    refine ⟨if_neg hpair, ?_, Or.inl (if_neg hswap)⟩
    split
    · rename_i htopic
      exact (hmint htopic).elim
    · rename_i htopic
      exact (hburn htopic).elim
    · rfl

def Below (m : Nat) (l : Log) : Prop := l.blockNumber < m

/-- Every row of the database is that of a log, or the header of a block, of the
chain below a height. -/
structure Sound (cfg : Config) (c : Chain) (m : Nat) (db : Database) : Prop where
  blocks : ∀ n b, db.blocks[n]? = some b →
    cfg.factoryDeployBlock ≤ n ∧ n < m ∧ c.headerAt n = some b
  pairs : pairFeed.Sound cfg c (Below m) db.pairs
  swaps : (swapFeed cfg).Sound cfg c (Below m) db.swaps
  liquidityEvents : (liquidityFeed cfg).Sound cfg c (Below m) db.liquidityEvents

/-- The database has the row of every log in a set. -/
structure Complete (cfg : Config) (c : Chain) (S : Log → Prop) (db : Database) : Prop where
  pairs : pairFeed.Complete cfg c S db.pairs
  swaps : (swapFeed cfg).Complete cfg c S db.swaps
  liquidityEvents : (liquidityFeed cfg).Complete cfg c S db.liquidityEvents

variable {c c' : Chain} {chains : Set Chain} {m : Nat} {S T : Log → Prop} {statement : Statement}

theorem pairOf_raw {p : Pair} (h : pairOf header l = some p) : p.raw = p := by
  obtain ⟨-, ev, -, rfl⟩ := pairOf_eq_some.mp h
  rfl

theorem swapOf_raw {s : Swap} (h : swapOf cfg header l = some s) : s.raw = s := by
  obtain ⟨-, ev, -, rfl⟩ := swapOf_eq_some.mp h
  rfl

theorem Sound.applied (h : Sound cfg c m db) (hrel : c.Relevant cfg l)
    (hb : c.headerAt l.blockNumber = some header) (hl : l.blockNumber < m)
    (ha : Applied cfg header ix l statement ix') : Sound cfg c m (statement.effect db) := by
  cases ha with
  | created p hp =>
    have hentry : pairFeed.Entry cfg c l header (Pair.raw { p with lastSyncBlock := none }) := by
      refine ⟨hrel, hb, ?_⟩
      rw [show Pair.raw { p with lastSyncBlock := none } = p from pairOf_raw hp]
      exact hp
    exact { h with pairs := h.pairs.insertIfNew hentry hl }
  | synced ev htopic hev =>
    refine { h with pairs := h.pairs.modify fun row => ?_ }
    change Pair.raw (ite _ _ _) = Pair.raw row
    split <;> rfl
  | swapped s p hs hp =>
    have hentry : (swapFeed cfg).Entry cfg c l header (Swap.raw (ix.valuedSwap s p).stored) := by
      refine ⟨hrel, hb, ?_⟩
      rw [valuedSwap_raw, swapOf_raw hs]
      exact hs
    have hrows := h.swaps.insertIfNew hentry hl
    exact { h with swaps := hrows }
  | deposited e he =>
    have hentry : (liquidityFeed cfg).Entry cfg c l header
        (LiquidityEvent.raw (ix.valuedLiquidity e).stored) :=
      ⟨hrel, hb, he.trans (congrArg some (liquidityOf_fields he).2.1.symm)⟩
    have hrows := h.liquidityEvents.insertIfNew hentry hl
    exact { h with liquidityEvents := hrows }

theorem stepLog_cases (h : stepLog cfg header (ix, db) l = some (ix', db')) :
    applyLog cfg header ix l = none ∧ ix' = ix ∧ db' = db ∨
      ∃ statement, Applied cfg header ix l statement ix' ∧ statement.allowed db = true ∧
        db' = statement.effect db := by
  rw [stepLog] at h
  rcases ha : applyLog cfg header ix l with _ | ⟨statement, ix₁⟩
  · simp only [ha, Option.some.injEq, Prod.mk.injEq] at h
    exact Or.inl ⟨rfl, h.1.symm, h.2.symm⟩
  · simp only [ha, Statement.run] at h
    split at h
    · rename_i hallowed
      simp only [Option.map_some, Option.some.injEq, Prod.mk.injEq] at h
      obtain ⟨rfl, rfl⟩ := h
      exact Or.inr ⟨statement, applied_of_applyLog ha, hallowed, rfl⟩
    · cases h

theorem Sound.stepLog (h : Sound cfg c m db) (hrel : c.Relevant cfg l)
    (hb : c.headerAt l.blockNumber = some header) (hl : l.blockNumber < m)
    (hstep : stepLog cfg header (ix, db) l = some (ix', db')) : Sound cfg c m db' := by
  rcases stepLog_cases hstep with ⟨-, -, rfl⟩ | ⟨statement, ha, -, rfl⟩
  · exact h
  · exact h.applied hrel hb hl ha

theorem noEntry {K R : Type} {feed : Feed K R} (hb : c.headerAt l.blockNumber = some header)
    (hnone : feed.rowOf header l = none) (b : Block) (r : R) : ¬feed.Entry cfg c l b r := by
  intro hentry
  have hbb : header = b := Option.some.inj (hb.symm.trans hentry.header)
  rw [hbb] at hnone
  rw [hentry.row] at hnone
  cases hnone

theorem pairOf_eq_none (h : l.topic ≠ some .pairCreated) : pairOf header l = none := if_neg h

theorem swapOf_eq_none (h : l.topic ≠ some .swap) : swapOf cfg header l = none := if_neg h

theorem liquidityOf_eq_none (hmint : l.topic ≠ some .mint) (hburn : l.topic ≠ some .burn) :
    liquidityOf cfg header l = none := by
  rcases he : liquidityOf cfg header l with _ | e
  · rfl
  · rcases (liquidityOf_fields he).1 with htopic | htopic
    · exact (hmint htopic).elim
    · exact (hburn htopic).elim

theorem Complete.applied (h : Complete cfg c S db) (hb : c.headerAt l.blockNumber = some header)
    (ha : Applied cfg header ix l statement ix') :
    Complete cfg c (fun k => S k ∨ k = l) (statement.effect db) := by
  have hself : ∀ {K R : Type} (feed : Feed K R) {r : R}, feed.rowOf header l = some r →
      ∀ b r', feed.Entry cfg c l b r' → feed.keyOf r' = feed.keyOf r := by
    intro K R feed r hr b r' hentry
    obtain rfl : header = b := Option.some.inj (hb.symm.trans hentry.header)
    rw [Option.some.inj (hr.symm.trans hentry.row)]
  cases ha with
  | created p hp =>
    have htopic := (pairOf_eq_some.mp hp).1
    refine ⟨h.pairs.insertIfNew_self { p with lastSyncBlock := none } ?_, h.swaps.skip (noEntry hb (swapOf_eq_none ?_)),
      h.liquidityEvents.skip (noEntry hb (liquidityOf_eq_none ?_ ?_))⟩
    · intro b r hentry
      exact hself pairFeed hp b r hentry
    all_goals simp [htopic]
  | synced ev htopic hev =>
    refine ⟨h.pairs.modify.skip (noEntry hb (pairOf_eq_none ?_)),
      h.swaps.skip (noEntry hb (swapOf_eq_none ?_)),
      h.liquidityEvents.skip (noEntry hb (liquidityOf_eq_none ?_ ?_))⟩
    all_goals simp [htopic]
  | swapped s p hs hp =>
    have htopic := (swapOf_eq_some.mp hs).1
    refine ⟨h.pairs.skip (noEntry hb (pairOf_eq_none ?_)), h.swaps.insertIfNew_self (ix.valuedSwap s p).stored ?_,
      h.liquidityEvents.skip (noEntry hb (liquidityOf_eq_none ?_ ?_))⟩
    · simp [htopic]
    · intro b r hentry
      exact (hself (swapFeed cfg) hs b r hentry).trans (valuedSwap_key ix s p).symm
    all_goals simp [htopic]
  | deposited e he =>
    have htopic := (liquidityOf_fields he).1
    refine ⟨h.pairs.skip (noEntry hb (pairOf_eq_none ?_)),
      h.swaps.skip (noEntry hb (swapOf_eq_none ?_)),
      h.liquidityEvents.insertIfNew_self (ix.valuedLiquidity e).stored ?_⟩
    · rcases htopic with htopic | htopic <;> simp [htopic]
    · rcases htopic with htopic | htopic <;> simp [htopic]
    · intro b r hentry
      exact hself (liquidityFeed cfg) he b r hentry

/-- The pairs in memory are pairs of some chain. -/
def Genuine (cfg : Config) (chains : Set Chain) (ix : Indexer) : Prop :=
  ∀ a p, ix.knownPairs[a]? = some p → ∃ c ∈ chains, c.IsPair cfg a

/-- The pairs whose creation is in a set are in memory. -/
def Knows (cfg : Config) (c : Chain) (S : Log → Prop) (ix : Indexer) : Prop :=
  ∀ a k ev, c.Created cfg a k ev → S k → ∃ p, ix.knownPairs[a]? = some p

theorem Knows.mono (h : Knows cfg c S ix) (hTS : ∀ k, c.Relevant cfg k → T k → S k) :
    Knows cfg c T ix := fun a k ev hk hT =>
  h a k ev hk (hTS k ⟨hk.emits, Or.inl ⟨hk.factory, hk.topic⟩⟩ hT)

theorem applied_known (ha : Applied cfg header ix l statement ix') {a : Address} {p : Pair}
    (hp : ix.knownPairs[a]? = some p) : ∃ p', ix'.knownPairs[a]? = some p' := by
  cases ha with
  | created q hq =>
    rw [addPair, Table.get_insert]
    split
    · exact ⟨q, rfl⟩
    · exact ⟨p, hp⟩
  | synced ev htopic hev =>
    rw [syncPair, Table.get_modify]
    split
    · rename_i hal
      rw [← hal, hp]
      exact ⟨_, rfl⟩
    · exact ⟨p, hp⟩
  | swapped s q hs hq => exact ⟨p, hp⟩
  | deposited e he => exact ⟨p, hp⟩

theorem Knows.applied (h : Knows cfg c S ix) (ha : Applied cfg header ix l statement ix') :
    Knows cfg c (fun k => S k ∨ k = l) ix' := by
  rintro a k ev hk (hS | rfl)
  · obtain ⟨p, hp⟩ := h a k ev hk hS
    exact applied_known ha hp
  · have htopic := hk.topic
    cases ha with
    | created p hp =>
      obtain ⟨-, ev', hev', rfl⟩ := pairOf_eq_some.mp hp
      obtain rfl := Option.some.inj (hev'.symm.trans hk.decoded)
      have haddress : a = (createdPair header k ev').address := hk.pair.symm
      rw [addPair, Table.get_insert, if_pos haddress]
      exact ⟨_, rfl⟩
    | synced ev' htopic' hev' =>
      rw [htopic'] at htopic
      cases htopic
    | swapped s p hs hp =>
      rw [(swapOf_eq_some.mp hs).1] at htopic
      cases htopic
    | deposited e he =>
      rcases (liquidityOf_fields he).1 with htopic' | htopic' <;>
      · rw [htopic'] at htopic
        cases htopic

theorem Genuine.applied (h : Genuine cfg chains ix) (hc : c ∈ chains) (hrel : c.Relevant cfg l)
    (ha : Applied cfg header ix l statement ix') : Genuine cfg chains ix' := by
  intro a p hp
  cases ha with
  | created q hq =>
    rw [addPair, Table.get_insert] at hp
    split at hp
    · rename_i hqa
      obtain ⟨htopic, ev, hev, rfl⟩ := pairOf_eq_some.mp hq
      refine ⟨c, hc, l, ev, ⟨hrel.1, ?_, htopic, hev, hqa.symm⟩⟩
      rcases hrel.2 with hfactory | ⟨-, t, ht, htopic'⟩
      · exact hfactory.1
      · rw [htopic] at htopic'
        obtain rfl := Option.some.inj htopic'
        exact absurd ht (by decide)
    · exact h a p hp
  | synced ev htopic hev =>
    rw [syncPair, Table.get_modify] at hp
    split at hp
    · rename_i hal
      obtain ⟨q, hq, -⟩ := Option.map_eq_some_iff.mp hp
      rw [hal]
      exact h _ q hq
    · exact h a p hp
  | swapped s q hs hq => exact h a p hp
  | deposited e he => exact h a p hp

theorem Genuine.memoryLog (h : Genuine cfg chains ix) (hc : c ∈ chains)
    (hrel : c.Relevant cfg l) : Genuine cfg chains (memoryLog cfg header ix l) := by
  rw [Indexer.memoryLog]
  rcases ha : applyLog cfg header ix l with _ | ⟨statement, ix₁⟩
  · exact h
  · exact h.applied hc hrel (applied_of_applyLog ha)

theorem Genuine.foldl {logs : List Log} (h : Genuine cfg chains ix) (hc : c ∈ chains)
    (hrel : ∀ l ∈ logs, c.Relevant cfg l) :
    Genuine cfg chains (logs.foldl (Indexer.memoryLog cfg header) ix) := by
  induction logs generalizing ix with
  | nil => exact h
  | cons l logs ih =>
    exact ih (h.memoryLog hc (hrel l List.mem_cons_self)) fun k hk =>
      hrel k (List.mem_cons_of_mem l hk)

/-- A log whose statement was skipped has no row, unless its pair is unknown. -/
theorem Complete.stepLog (hnet : Chain.Network cfg chains) (hc : c ∈ chains)
    (h : Complete cfg c S db) (hknows : Knows cfg c S ix) (hrel : c.Relevant cfg l)
    (hb : c.headerAt l.blockNumber = some header) (hbefore : ∀ k, c.Relevant cfg k → k.Before l → S k)
    (hstep : stepLog cfg header (ix, db) l = some (ix', db')) :
    Complete cfg c (fun k => S k ∨ k = l) db' ∧ Knows cfg c (fun k => S k ∨ k = l) ix' := by
  rcases stepLog_cases hstep with ⟨hskip, rfl, rfl⟩ | ⟨statement, ha, -, rfl⟩
  · obtain ⟨hpair, hliquidity, hswap⟩ := skipped_of_applyLog hskip
    have hswap : swapOf cfg header l = none := by
      rcases hswap with hswap | hunknown
      · exact hswap
      · rcases hs : swapOf cfg header l with _ | s
        · rfl
        · obtain ⟨hemits, ⟨-, htopic⟩ | ⟨hispair, htopic⟩⟩ := hrel
          · rw [(swapOf_eq_some.mp hs).1] at htopic
            cases htopic
          · obtain ⟨k, ev, hk, hkl⟩ := hnet.created_first c hc c hc l hemits hispair htopic
            have hkrel : c.Relevant cfg k := ⟨hk.emits, Or.inl ⟨hk.factory, hk.topic⟩⟩
            obtain ⟨p, hp⟩ := hknows l.address k ev hk (hbefore k hkrel hkl)
            rw [hunknown] at hp
            cases hp
    refine ⟨⟨h.pairs.skip (noEntry hb hpair), h.swaps.skip (noEntry hb hswap),
      h.liquidityEvents.skip (noEntry hb hliquidity)⟩, ?_⟩
    rintro a k ev hk (hS | rfl)
    · exact hknows a k ev hk hS
    · have hentry : pairFeed.Entry cfg c k header (createdPair header k ev) :=
        ⟨hrel, hb, pairOf_eq_some.mpr ⟨hk.topic, ev, hk.decoded, rfl⟩⟩
      exact (noEntry hb hpair _ _ hentry).elim
  · exact ⟨h.applied hb ha, hknows.applied ha⟩

section Block

variable {number : Nat} {newTokens : List Token} {logs : List Log}

theorem runAll_inv {P : Database → Prop} {statements : List Statement}
    (h : ∀ st ∈ statements, ∀ db, P db → P (st.effect db)) (hP : P db)
    (hrun : runAll statements db = some db') : P db' := by
  induction statements generalizing db with
  | nil => exact Option.some.inj hrun ▸ hP
  | cons st statements ih =>
    rw [runAll, List.foldlM_cons] at hrun
    obtain ⟨db₁, h₁, hrest⟩ := Option.bind_eq_some_iff.mp hrun
    rw [Statement.run] at h₁
    split at h₁
    · cases h₁
      exact ih (fun st' hst' => h st' (List.mem_cons_of_mem st hst'))
        (h st List.mem_cons_self db hP) hrest
    · cases h₁

theorem indexBlock_eq_some {s : Indexer × Database}
    (h : indexBlock cfg header number newTokens logs s = some (ix', db')) :
    ∃ db₁ db₂, runAll (openingStatements header newTokens) s.2 = some db₁ ∧
      logs.foldlM (stepLog cfg header) (s.1, db₁) = some (ix', db₂) ∧
      runAll (snapshotStatements cfg header ix' logs ++ [cursorAt cfg number header]) db₂ =
        some db' := by
  obtain ⟨db₁, h₁, h⟩ := Option.bind_eq_some_iff.mp h
  obtain ⟨⟨ix₂, db₂⟩, h₂, h⟩ := Option.bind_eq_some_iff.mp h
  obtain ⟨db₃, h₃, h⟩ := Option.bind_eq_some_iff.mp h
  cases h
  exact ⟨db₁, db₂, h₁, h₂, h₃⟩

theorem upsertToken_frame {P : Database → Prop} {t : Token}
    (hP : ∀ db tokens, P db → P { db with tokens := tokens }) (h : P db) :
    P ((Database.upsertToken t).effect db) := by
  rw [Database.upsertToken]
  rcases t.address with _ | a
  · exact h
  · exact hP db _ h

/-- The tables that are fed from logs are the same. -/
structure SameRows (db db' : Database) : Prop where
  pairs : db'.pairs = db.pairs
  swaps : db'.swaps = db.swaps
  liquidityEvents : db'.liquidityEvents = db.liquidityEvents

theorem SameRows.refl (db : Database) : SameRows db db := ⟨rfl, rfl, rfl⟩

theorem SameRows.trans {db'' : Database} (h : SameRows db db') (h' : SameRows db' db'') :
    SameRows db db'' :=
  ⟨h'.pairs.trans h.pairs, h'.swaps.trans h.swaps, h'.liquidityEvents.trans h.liquidityEvents⟩

theorem SameRows.complete (h : SameRows db db') (hcomplete : Complete cfg c S db) :
    Complete cfg c S db' where
  pairs := h.pairs ▸ hcomplete.pairs
  swaps := h.swaps ▸ hcomplete.swaps
  liquidityEvents := h.liquidityEvents ▸ hcomplete.liquidityEvents

theorem opening_rows (hrun : runAll (openingStatements header newTokens) db = some db') :
    SameRows db db' := by
  refine runAll_inv (P := SameRows db) (fun st hst d hd => ?_) (SameRows.refl db) hrun
  rcases List.mem_cons.mp hst with rfl | hst
  · exact { hd with }
  · obtain ⟨t, -, rfl⟩ := List.mem_map.mp hst
    exact upsertToken_frame (fun _ _ hd => { hd with }) hd

theorem closing_rows
    (hrun : runAll (snapshotStatements cfg header ix logs ++ [cursorAt cfg number header]) db =
      some db') : SameRows db db' := by
  refine runAll_inv (P := SameRows db) (fun st hst d hd => ?_) (SameRows.refl db) hrun
  rcases List.mem_append.mp hst with hst | hst
  · obtain ⟨snap, -, rfl⟩ := List.mem_map.mp hst
    exact { hd with }
  · rw [List.mem_singleton.mp hst]
    exact { hd with }

theorem Sound.opening (h : Sound cfg c m db) (hdeploy : cfg.factoryDeployBlock ≤ number)
    (hm : number < m) (hnumber : header.number = number) (hb : c.headerAt number = some header)
    (hrun : runAll (openingStatements header newTokens) db = some db') : Sound cfg c m db' := by
  refine runAll_inv (fun st hst db hdb => ?_) h hrun
  rcases List.mem_cons.mp hst with rfl | hst
  · refine { hdb with blocks := fun n b hget => ?_ }
    change (db.blocks.insert header.number header)[n]? = some b at hget
    rw [Table.get_insert] at hget
    split at hget
    · rename_i hn
      obtain rfl := Option.some.inj hget
      rw [hn, hnumber]
      exact ⟨hdeploy, hm, hb⟩
    · exact hdb.blocks n b hget
  · obtain ⟨t, -, rfl⟩ := List.mem_map.mp hst
    exact upsertToken_frame (fun _ _ hdb => { hdb with }) hdb

theorem Sound.closing (h : Sound cfg c m db)
    (hrun : runAll (snapshotStatements cfg header ix logs ++ [cursorAt cfg number header]) db =
      some db') : Sound cfg c m db' := by
  refine runAll_inv (fun st hst db hdb => ?_) h hrun
  rcases List.mem_append.mp hst with hst | hst
  · obtain ⟨snap, -, rfl⟩ := List.mem_map.mp hst
    exact { hdb with }
  · rw [List.mem_singleton.mp hst]
    exact { hdb with }

theorem Sound.stepLogs (h : Sound cfg c m db)
    (hlogs : ∀ l ∈ logs, c.Relevant cfg l ∧ c.headerAt l.blockNumber = some header ∧ l.blockNumber < m)
    (hfold : logs.foldlM (Indexer.stepLog cfg header) (ix, db) = some (ix', db')) :
    Sound cfg c m db' := by
  refine stepLogs_inv (P := fun _ db => Sound cfg c m db) (fun l hl _ _ _ _ hsound hstep => ?_) h hfold
  obtain ⟨hrel, hb, hlt⟩ := hlogs l hl
  exact hsound.stepLog hrel hb hlt hstep

/-- The logs of a block are exactly those that complete it, when they come in
the order of the chain. -/
theorem Complete.stepLogs (hnet : Chain.Network cfg chains) (hc : c ∈ chains)
    (hlogs : ∀ l ∈ logs, c.Relevant cfg l ∧ c.headerAt l.blockNumber = some header)
    (hbefore : ∀ k l, l ∈ logs → c.Relevant cfg k → k.Before l → S k ∨ k ∈ logs)
    (hsorted : logs.Pairwise fun l k => ¬k.Before l) (h : Complete cfg c S db)
    (hknows : Knows cfg c S ix)
    (hfold : logs.foldlM (Indexer.stepLog cfg header) (ix, db) = some (ix', db')) :
    Complete cfg c (fun k => S k ∨ k ∈ logs) db' ∧ Knows cfg c (fun k => S k ∨ k ∈ logs) ix' := by
  induction logs generalizing ix db S with
  | nil =>
    cases hfold
    simpa using ⟨h, hknows⟩
  | cons l logs ih =>
    rw [List.foldlM_cons] at hfold
    obtain ⟨⟨ix₁, db₁⟩, hstep, hrest⟩ := Option.bind_eq_some_iff.mp hfold
    obtain ⟨hfirst, hsorted⟩ := List.pairwise_cons.mp hsorted
    obtain ⟨hrel, hb⟩ := hlogs l List.mem_cons_self
    have hdone : ∀ k, c.Relevant cfg k → k.Before l → S k := by
      intro k hk hkl
      rcases hbefore k l List.mem_cons_self hk hkl with hS | hmem
      · exact hS
      · rcases List.mem_cons.mp hmem with rfl | hmem
        · rcases hkl with hkl | hkl <;> omega
        · exact (hfirst k hmem hkl).elim
    obtain ⟨h₁, hknows₁⟩ := h.stepLog hnet hc hknows hrel hb hdone hstep
    have hrest := ih (S := fun k => S k ∨ k = l) (fun k hk => hlogs k (List.mem_cons_of_mem l hk))
      (fun k l' hl' hk hkl => ?_) hsorted h₁ hknows₁ hrest
    · simpa only [List.mem_cons, or_assoc] using hrest
    · rcases hbefore k l' (List.mem_cons_of_mem l hl') hk hkl with hS | hmem
      · exact Or.inl (Or.inl hS)
      · rcases List.mem_cons.mp hmem with rfl | hmem
        · exact Or.inl (Or.inr rfl)
        · exact Or.inr hmem

theorem Sound.indexBlock (h : Sound cfg c m db) (hdeploy : cfg.factoryDeployBlock ≤ number)
    (hm : m ≤ number + 1) (hb : c.headerAt number = some header) (hnumber : header.number = number)
    (hlogs : ∀ l ∈ logs, c.Relevant cfg l ∧ l.blockNumber = number)
    (hrun : indexBlock cfg header number newTokens logs (ix, db) = some (ix', db')) :
    Sound cfg c (number + 1) db' := by
  obtain ⟨db₁, db₂, hopen, hfold, hclose⟩ := indexBlock_eq_some hrun
  have hmono : Sound cfg c (number + 1) db :=
    ⟨fun n b hget => ⟨(h.blocks n b hget).1, Nat.lt_of_lt_of_le (h.blocks n b hget).2.1 hm,
      (h.blocks n b hget).2.2⟩, h.pairs.mono fun _ hl => Nat.lt_of_lt_of_le hl hm,
      h.swaps.mono fun _ hl => Nat.lt_of_lt_of_le hl hm,
      h.liquidityEvents.mono fun _ hl => Nat.lt_of_lt_of_le hl hm⟩
  refine ((hmono.opening hdeploy (Nat.lt_succ_self _) hnumber hb hopen).stepLogs (fun l hl => ?_)
    hfold).closing hclose
  obtain ⟨hrel, hl⟩ := hlogs l hl
  rw [hl]
  exact ⟨hrel, hb, Nat.lt_succ_self _⟩

theorem Complete.indexBlock (hnet : Chain.Network cfg chains) (hc : c ∈ chains)
    (h : Complete cfg c (Below number) db) (hknows : Knows cfg c (Below number) ix)
    (hb : c.headerAt number = some header)
    (hlogs : ∀ l, l ∈ logs ↔ c.Relevant cfg l ∧ l.blockNumber = number)
    (hsorted : logs.Pairwise fun l k => ¬k.Before l)
    (hrun : indexBlock cfg header number newTokens logs (ix, db) = some (ix', db')) :
    Complete cfg c (Below (number + 1)) db' ∧ Knows cfg c (Below (number + 1)) ix' := by
  obtain ⟨db₁, db₂, hopen, hfold, hclose⟩ := indexBlock_eq_some hrun
  have hbelow : ∀ k, c.Relevant cfg k → Below (number + 1) k → Below number k ∨ k ∈ logs := by
    intro k hk hlt
    rcases Nat.lt_succ_iff_lt_or_eq.mp hlt with hlt | heq
    · exact Or.inl hlt
    · exact Or.inr ((hlogs k).mpr ⟨hk, heq⟩)
  have hrel : ∀ l ∈ logs, c.Relevant cfg l ∧ c.headerAt l.blockNumber = some header := by
    intro l hl
    obtain ⟨hrel, hl⟩ := (hlogs l).mp hl
    rw [hl]
    exact ⟨hrel, hb⟩
  have hbefore : ∀ k l, l ∈ logs → c.Relevant cfg k → k.Before l → Below number k ∨ k ∈ logs := by
    intro k l hl hk hkl
    refine hbelow k hk ?_
    have hl := ((hlogs l).mp hl).2
    have hle := hkl.le
    rw [Below]
    omega
  obtain ⟨hcomplete, hknows'⟩ :=
    ((opening_rows hopen).complete h).stepLogs hnet hc hrel hbefore hsorted hknows hfold
  have hclosed := (closing_rows hclose).complete hcomplete
  exact ⟨⟨hclosed.pairs.mono hbelow, hclosed.swaps.mono hbelow,
    hclosed.liquidityEvents.mono hbelow⟩, hknows'.mono hbelow⟩

theorem runAll_snoc_eq_some {statements : List Statement} {st : Statement}
    (h : runAll (statements ++ [st]) db = some db') :
    ∃ db₁, runAll statements db = some db₁ ∧ st.allowed db₁ = true ∧ db' = st.effect db₁ := by
  rw [runAll, List.foldlM_append] at h
  obtain ⟨db₁, h₁, h⟩ := Option.bind_eq_some_iff.mp h
  rw [List.foldlM_cons] at h
  obtain ⟨db₂, h₂, h⟩ := Option.bind_eq_some_iff.mp h
  cases h
  rw [Statement.run] at h₂
  split at h₂
  · rename_i hallowed
    exact ⟨db₁, h₁, hallowed, (Option.some.inj h₂).symm⟩
  · cases h₂

theorem cursorAt_effect (cfg : Config) (number : Nat) (header : Block) (db : Database) :
    ((cursorAt cfg number header).effect db).indexerState[cfg.chainID]? =
      some { chainID := cfg.chainID, lastProcessedBlock := number,
             lastProcessedBlockHash := header.hash } := by
  rw [cursorAt, Database.setIndexerState, Table.get_insert, if_pos rfl]

theorem indexBlock_cursor
    (hrun : indexBlock cfg header number newTokens logs (ix, db) = some (ix', db')) :
    db'.indexerState[cfg.chainID]? =
      some { chainID := cfg.chainID, lastProcessedBlock := number,
             lastProcessedBlockHash := header.hash } := by
  obtain ⟨db₁, db₂, -, -, hclose⟩ := indexBlock_eq_some hrun
  obtain ⟨db₃, -, -, rfl⟩ := runAll_snoc_eq_some hclose
  exact cursorAt_effect cfg number header db₃

end Block

end Indexer

end ArkSwap.GoInternal
