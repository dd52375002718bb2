import ArkSwap.IndexerReplay

/-! What came in and what went out in the swaps that an index of a chain lists, by the tokens
that the factory created their pairs of. -/

namespace ArkSwap.GoInternal

/-- The factory created a pair of these tokens at this address. -/
def Chain.PairOf (cfg : Config) (c : Chain) (a token0 token1 : Address) : Prop :=
  ∃ k ev, c.Created cfg a k ev ∧ ev.token0 = token0 ∧ ev.token1 = token1

namespace Indexer

variable {cfg : Config} {o : Outside} {c : Chain} {chains : Set Chain} {a : Address} {l : Log}
variable {logs : List Log} {header : Block} {ix ix' : Indexer} {db db' : Database} {n : Nat}
variable {s : Swap} {p : Pair} {statement : Statement}

/-- A row tells a trade in two tokens as `normalizeSwap` does. -/
def TellsTrade (s : Swap) (token0 token1 : Address) : Prop :=
  { s with amountUSD := none } = normalizeSwap s.raw token0 token1

/-- The rows of the table of swaps tell trades in the tokens of their pairs. -/
def TradesTold (cfg : Config) (c : Chain) (db : Database) : Prop :=
  ∀ (k : Word × Nat) s, db.swaps[k]? = some s →
    ∃ token0 token1, c.PairOf cfg s.pairAddress token0 token1 ∧ TellsTrade s token0 token1

/-- So do the pairs in memory, of which further rows are made. -/
structure Traded (cfg : Config) (c : Chain) (ix : Indexer) (db : Database) : Prop where
  memory : ∀ (a : Address) p, ix.knownPairs[a]? = some p →
    c.PairOf cfg a p.token0Address p.token1Address
  swaps : TradesTold cfg c db

theorem valuedSwap_tellsTrade (hs : s.raw = s) :
    TellsTrade (ix.valuedSwap s p).stored p.token0Address p.token1Address := by
  have hunpriced : { normalizeSwap s p.token0Address p.token1Address with amountUSD := none } =
      normalizeSwap s p.token0Address p.token1Address := by
    have husd : s.amountUSD = none := (congrArg Swap.amountUSD hs).symm
    unfold normalizeSwap
    split
    · rw [← husd]
    · split
      · rw [← husd]
      · rw [← husd]
  rw [TellsTrade, valuedSwap_raw, hs]
  exact hunpriced

theorem pairOf_row {S : Log → Prop} (hsound : pairFeed.Sound cfg c S db.pairs)
    (hp : db.pairs[a]? = some p) : c.PairOf cfg a p.token0Address p.token1Address := by
  obtain ⟨hkey, l, b, hentry, -⟩ := hsound a p hp
  obtain ⟨htopic, ev, hev, hraw⟩ := pairOf_eq_some.mp hentry.row
  have haddress : ev.pair = a := (congrArg Pair.address hraw).trans hkey
  exact ⟨l, ev, haddress ▸ hentry.relevant.created htopic hev, congrArg Pair.token0Address hraw,
    congrArg Pair.token1Address hraw⟩

theorem pairOf_unique (hc : c.WellFormed cfg) {t₀ t₁ u₀ u₁ : Address}
    (h : c.PairOf cfg a t₀ t₁) (h' : c.PairOf cfg a u₀ u₁) : t₀ = u₀ ∧ t₁ = u₁ := by
  obtain ⟨k, ev, hk, rfl, rfl⟩ := h
  obtain ⟨k', ev', hk', rfl, rfl⟩ := h'
  obtain rfl := hc.created_once a k ev k' ev' hk hk'
  obtain rfl := Option.some.inj (hk.decoded.symm.trans hk'.decoded)
  exact ⟨rfl, rfl⟩

theorem Traded.applied (h : Traded cfg c ix db) (hrel : c.Relevant cfg l)
    (ha : Applied cfg header ix l statement ix') : Traded cfg c ix' (statement.effect db) := by
  cases ha with
  | created q hq =>
    refine ⟨fun a p hp => ?_, h.swaps⟩
    rw [addPair, Table.get_insert] at hp
    split at hp
    · rename_i hqa
      obtain rfl := Option.some.inj hp
      obtain ⟨htopic, ev, hev, rfl⟩ := pairOf_eq_some.mp hq
      exact ⟨l, ev, hqa ▸ hrel.created htopic hev, rfl, rfl⟩
    · exact h.memory a p hp
  | synced ev htopic hev =>
    refine ⟨fun a p hp => ?_, h.swaps⟩
    rw [syncPair, Table.get_modify] at hp
    split at hp
    · rename_i hal
      obtain ⟨q, hq, rfl⟩ := Option.map_eq_some_iff.mp hp
      rw [hal]
      exact h.memory l.address q hq
    · exact h.memory a p hp
  | swapped s q hs hq =>
    refine ⟨h.memory, fun k t ht => ?_⟩
    rw [Database.insertSwap] at ht
    dsimp only at ht
    rw [Table.get_insertIfNew] at ht
    split at ht
    · obtain rfl := Option.some.inj ht
      have haddress : (ix.valuedSwap s q).stored.pairAddress = l.address := by
        obtain ⟨-, ev, -, rfl⟩ := swapOf_eq_some.mp hs
        exact congrArg Swap.pairAddress (valuedSwap_raw ix (swapRow cfg header l ev) q)
      rw [haddress]
      exact ⟨_, _, h.memory l.address q hq, valuedSwap_tellsTrade (swapOf_raw hs)⟩
    · exact h.swaps k t ht
  | deposited e he => exact ⟨h.memory, h.swaps⟩

theorem Traded.congr (h : Traded cfg c ix db) (hix : ix'.knownPairs = ix.knownPairs)
    (hdb : db'.swaps = db.swaps) : Traded cfg c ix' db' := by
  refine ⟨?_, ?_⟩
  · rw [hix]
    exact h.memory
  · rw [TradesTold, hdb]
    exact h.swaps

theorem Traded.stepLog (h : Traded cfg c ix db) (hrel : c.Relevant cfg l)
    (hstep : stepLog cfg header (ix, db) l = some (ix', db')) : Traded cfg c ix' db' := by
  rcases stepLog_cases hstep with ⟨-, rfl, rfl⟩ | ⟨statement, ha, -, rfl⟩
  · exact h
  · exact h.applied hrel ha

/-- Memory goes by the logs alone. -/
theorem Traded.memoryLogs (h : Traded cfg c ix db) (hrel : ∀ l ∈ logs, c.Relevant cfg l) :
    Traded cfg c (logs.foldl (memoryLog cfg header) ix) db := by
  induction logs generalizing ix with
  | nil => exact h
  | cons l logs ih =>
    refine ih ?_ fun k hk => hrel k (List.mem_cons_of_mem l hk)
    rw [memoryLog]
    rcases ha : applyLog cfg header ix l with _ | ⟨statement, ix₁⟩
    · exact h
    · exact ⟨(h.applied (hrel l List.mem_cons_self) (applied_of_applyLog ha)).memory, h.swaps⟩

theorem Traded.kept {full : Prop} : Kept full cfg o c (Traded cfg c) where
  block bn header tokens logs ix db ix' db' h _ _ hlogs _ _ hrun := by
    obtain ⟨db₁, db₂, hopen, hfold, hclose⟩ := indexBlock_eq_some hrun
    have hopened : Traded cfg c (ix.loadTokens tokens) db₁ := h.congr rfl (opening_rows hopen).swaps
    have hdone := stepLogs_inv (P := fun ix db => Traded cfg c ix db)
      (fun l hl _ _ _ _ htraded hstep => htraded.stepLog (hlogs.relevant l hl).1 hstep) hopened hfold
    exact hdone.congr rfl (closing_rows hclose).swaps
  cursor n b ix db h _ _ _ _ _ := h.congr rfl rfl
  batch ix db n h := h.congr rfl rfl

theorem Traded.left : Left cfg c (Traded cfg c) (Traded cfg c) where
  whole ix db h := h
  partly header tokens logs ix ix' db h hrel hpart := by
    obtain ⟨done, hdone, rfl⟩ := hpart
    have hloaded : Traded cfg c (ix.loadTokens tokens) db := h.congr rfl rfl
    exact hloaded.memoryLogs fun l hl => hrel l (hdone.subset hl)

end Indexer

namespace Process

open Indexer

variable {cfg : Config} {c : Chain} {steps : List Step} {p : Process} {k : Word × Nat} {s : Swap}

structure Traded (cfg : Config) (c : Chain) (p : Process) : Prop where
  swaps : TradesTold cfg c p.db
  memory : ∀ ix, p.memory = some ix → Indexer.Traded cfg c ix p.db

theorem Traded.step (hnet : Chain.Network cfg {c})
    (hreplay : OnReplay cfg c initial.db cfg.factoryDeployBlock p) (h : Traded cfg c p) {m : Step}
    (hwatches : Watches cfg c p m) : Traded cfg c (step cfg p m) := by
  cases m with
  | tick o =>
    rw [Process.step]
    rcases hm : p.memory with _ | ix
    · exact h
    · obtain ⟨hsees, hfits⟩ := hwatches
      obtain ⟨hheld, hcovers⟩ := hreplay.memory ix hm
      obtain ⟨-, htraded⟩ := tick_keeping Traded.kept Traded.left hnet hsees (Nat.le_max_right _ _)
        (fun st hst => reach_top hst) hheld (hfits ix hm) hcovers (h.memory ix hm)
      exact ⟨htraded.swaps, fun ix' hix' => Option.some.inj hix' ▸ htraded⟩
  | restart o =>
    rcases step_restart cfg p o with heq | heq
    · rw [heq]
      exact ⟨h.swaps, fun ix hix => (by cases hix)⟩
    · rw [heq]
      refine ⟨h.swaps, fun ix hix => ⟨fun a q hq => ?_, h.swaps⟩⟩
      obtain rfl := Option.some.inj hix
      rw [loaded_pairs hreplay.indexed.keys] at hq
      exact pairOf_row hreplay.indexed.sound.pairs hq

/-- After any run on one chain each row of the table of swaps tells a trade in the tokens of its
pair's row. -/
theorem run_traded (hnet : Chain.Network cfg {c}) (hbatch : 0 < cfg.blockBatchSize)
    (hpass : Run.Along (step cfg) (Watches cfg c) initial steps)
    (hs : (Run.run (step cfg) initial steps).db.swaps[k]? = some s) :
    ∃ row, (Run.run (step cfg) initial steps).db.pairs[s.pairAddress]? = some row ∧
      TellsTrade s row.token0Address row.token1Address := by
  obtain ⟨hreplay, htraded⟩ : OnReplay cfg c initial.db cfg.factoryDeployBlock
      (Run.run (step cfg) initial steps) ∧ Traded cfg c (Run.run (step cfg) initial steps) := by
    refine Run.run_inv_along (fun p => OnReplay cfg c initial.db cfg.factoryDeployBlock p ∧
      Traded cfg c p) (fun p m hp hm => ⟨?_, hp.2.step hnet hp.1 hm⟩) ⟨onReplay_initial hnet, ?_⟩ hpass
    · have hone : Run.Along (step cfg) (Watches cfg c) p [m] := ⟨hm, True.intro⟩
      exact hp.1.run hnet hbatch hone
    · refine ⟨fun k s hs => ?_, fun ix hix => (by cases hix)⟩
      simp [initial, Database.empty] at hs
  obtain ⟨token0, token1, hpair, htells⟩ := htraded.swaps k s hs
  obtain ⟨-, l, b, hentry, hl⟩ := hreplay.indexed.sound.swaps k s hs
  -- The row of the pair is there, because it was created before its swap.
  have haddress : s.pairAddress = l.address := swapFeed_event.address b l s hentry.row
  have hcreated : c.IsPair cfg l.address := by
    obtain ⟨m, ev, hm, -⟩ := hpair
    exact haddress ▸ ⟨m, ev, hm⟩
  obtain ⟨m, ev, hm, hbefore⟩ := hnet.created_first c rfl c rfl l hentry.relevant.1 hcreated
    (swapFeed_event.topic b l _ hentry.row)
  obtain ⟨mb, hmb⟩ := hm.emits.header
  obtain ⟨row, hrow⟩ := (hreplay.indexed.complete True.intro).pairs m mb (createdPair mb m ev)
    ⟨⟨hm.emits, Or.inl ⟨hm.factory, hm.topic⟩⟩, hmb, pairOf_eq_some.mpr ⟨hm.topic, ev, hm.decoded, rfl⟩⟩
    (Nat.lt_of_le_of_lt (Log.Before.le hbefore) hl)
  have hkey : pairFeed.keyOf (createdPair mb m ev) = s.pairAddress := hm.pair.trans haddress.symm
  rw [hkey] at hrow
  obtain ⟨rfl, rfl⟩ := pairOf_unique (hnet.wellFormed c rfl) hpair
    (pairOf_row hreplay.indexed.sound.pairs hrow)
  exact ⟨row, hrow, htells⟩

end Process

end ArkSwap.GoInternal
