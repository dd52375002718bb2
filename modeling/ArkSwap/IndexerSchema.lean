import ArkSwap.IndexerCommit
import ArkSwap.IndexerSwap

/-! What a block's content must be for the schema to accept all that is written of
it: decimals, texts and USD figures are the tokens' own to choose. -/

namespace ArkSwap.GoInternal

open Prog

/-- What rounds to a figure that `NUMERIC(38, 18)` has no room for is not below this. -/
def usdBound : ℚ := 10 ^ 20 - 1 / (2 * 10 ^ 18)

def InRange (v : Option ℚ) : Prop := ∀ r, v = some r → r < usdBound

theorem numeric38_iff {v : Option ℚ} (hv : ∀ r, v = some r → 0 ≤ r) :
    Database.numeric38 (numPtr v) = true ↔ InRange v := by
  rcases v with _ | r
  · exact iff_of_true rfl fun r hr => (by cases hr)
  · have hr := hv r rfl
    have hscale : (0 : ℚ) < 10 ^ usdScale := by norm_num [usdScale]
    have hfloor : (0 : ℤ) ≤ ⌊r * 10 ^ usdScale + 1 / 2⌋ :=
      Int.floor_nonneg.mpr (add_nonneg (mul_nonneg hr hscale.le) (by norm_num))
    have hrounded : floatString r usdScale = (⌊r * 10 ^ usdScale + 1 / 2⌋ : ℚ) / 10 ^ usdScale :=
      if_pos hr
    have habs : |floatString r usdScale| < 10 ^ 20 ↔ r < usdBound := by
      rw [hrounded, abs_of_nonneg (div_nonneg (Int.cast_nonneg hfloor) hscale.le), div_lt_iff₀ hscale]
      have hcast : (10 : ℚ) ^ 20 * 10 ^ usdScale = ((10 ^ 38 : ℤ) : ℚ) := by norm_num [usdScale]
      rw [hcast, Int.cast_lt, Int.floor_lt, usdBound]
      norm_num [usdScale]
      constructor <;> intro h <;> linarith
    simp only [Database.numeric38, numPtr, Option.map_some, Option.all_some, decide_eq_true_eq]
    exact habs.trans ⟨fun h s hs => Option.some.inj hs ▸ h, fun h => h r rfl⟩

section Figures

variable {e : Engine} {t : Token} {p : Price}

theorem foldl_deeper {ps : List Price} {best : Option Price}
    (h : ps.foldl Engine.deeper best = some p) : p ∈ ps ∨ best = some p := by
  induction ps generalizing best with
  | nil => exact Or.inr h
  | cons q ps ih =>
    rcases ih h with hmem | hbest
    · exact Or.inl (List.mem_cons_of_mem q hmem)
    · unfold Engine.deeper at hbest
      split at hbest
      · rw [← Option.some.inj hbest]
        exact Or.inl List.mem_cons_self
      · split at hbest
        · rw [← Option.some.inj hbest]
          exact Or.inl List.mem_cons_self
        · exact Or.inr hbest

theorem deepest_nonneg {accepts : Token → Bool} {otherPriceUSD : ℚ} {source : PriceSource}
    (hother : 0 ≤ otherPriceUSD) (h : e.deepest t accepts otherPriceUSD source = some p) :
    0 ≤ p.usd := by
  rcases foldl_deeper h with hmem | hnone
  · obtain ⟨pool, -, hcandidate⟩ := List.mem_filterMap.mp hmem
    unfold Engine.candidate at hcandidate
    split at hcandidate
    · cases hcandidate
    · split at hcandidate
      · split at hcandidate
        · cases hcandidate
        · rename_i price liquidity hratio
          split at hcandidate
          · cases hcandidate
          · rw [← Option.some.inj hcandidate]
            unfold ratio at hratio
            split at hratio
            · split at hratio
              · cases hratio
              · rename_i thisHuman otherHuman _ _ hpos
                rw [not_or, not_le, not_le] at hpos
                have hprice := congrArg Prod.fst (Option.some.inj hratio)
                dsimp only at hprice ⊢
                rw [← hprice, mul_one]
                exact div_nonneg (mul_nonneg hpos.2.le hother) hpos.1.le
            · cases hratio
      · cases hcandidate
  · cases hnone

theorem directStable_nonneg (h : e.directStable t = some p) : 0 ≤ p.usd :=
  deepest_nonneg zero_le_one h

theorem wkashPrice_nonneg (h : e.wkashPrice = some p) : 0 ≤ p.usd := by
  obtain ⟨pool, -, hpool⟩ := List.exists_of_findSome?_eq_some h
  obtain ⟨side, -, hside⟩ := List.exists_of_findSome?_eq_some hpool
  split at hside
  · exact directStable_nonneg hside
  · cases hside

theorem priceUSD_nonneg (h : e.priceUSD t = some p) : 0 ≤ p.usd := by
  rw [Engine.priceUSD] at h
  split at h
  · rw [← Option.some.inj h]
    exact zero_le_one
  · split at h
    · rename_i q hq
      rw [← Option.some.inj h]
      exact directStable_nonneg hq
    · rw [Engine.viaWKASH] at h
      split at h
      · cases h
      · rename_i q hq
        exact deepest_nonneg (wkashPrice_nonneg hq) h

theorem pairTVL_nonneg {r₀ r₁ : Nat} {t₀ t₁ : Token} {p₀ p₁ : Option ℚ} {v : ℚ}
    (h₀ : ∀ x, p₀ = some x → 0 ≤ x) (h₁ : ∀ x, p₁ = some x → 0 ≤ x)
    (h : pairTVL r₀ t₀ p₀ r₁ t₁ p₁ = some v) : 0 ≤ v := by
  unfold pairTVL at h
  split at h
  · rename_i x₀ x₁ y₀ y₁ hy₀ hy₁
    rw [← Option.some.inj h]
    exact add_nonneg (mul_nonneg (scaleDown_nonneg hy₀) (h₀ x₀ rfl))
      (mul_nonneg (scaleDown_nonneg hy₁) (h₁ x₁ rfl))
  · cases h

theorem stableLeg_nonneg {amount : Nat} {v : ℚ} (h : stableLeg t amount = some v) : 0 ≤ v := by
  rw [stableLeg] at h
  split at h
  · exact scaleDown_nonneg h
  · cases h

end Figures

namespace Indexer

variable {ix : Indexer}

theorem swapUSD_nonneg {s : Swap} {v : ℚ} (h : ix.swapUSD s = some v) : 0 ≤ v := by
  rw [swapUSD] at h
  split at h
  · rw [stableLegUSD] at h
    split at h
    · rename_i w hw
      rw [← Option.some.inj h]
      exact stableLeg_nonneg hw
    · exact stableLeg_nonneg h
  · cases h

theorem liquidityUSD_nonneg {pair : Address} {amount0 amount1 : Nat} {v : ℚ}
    (h : ix.liquidityUSD pair amount0 amount1 = some v) : 0 ≤ v := by
  rw [liquidityUSD] at h
  split at h
  · cases h
  · split at h
    · rename_i side hside
      rw [← Option.some.inj h]
      exact mul_nonneg (stableLeg_nonneg hside) (by norm_num)
    · obtain ⟨side, hside, rfl⟩ := Option.map_eq_some_iff.mp h
      exact mul_nonneg (stableLeg_nonneg hside) (by norm_num)

/-- The log creates the pair at this address. -/
def Creates (l : Log) (a : Address) : Prop :=
  l.topic = some .pairCreated ∧ ∃ ev, decodePairCreated l = some ev ∧ ev.pair = a

/-- Logs of one block that the decoders accept, of the factory and of its pairs:
the factory sorts the tokens, and a pair emits nothing before it is created. -/
structure Sourced (number : Nat) (logs : List Log) (db : Database) : Prop where
  block : ∀ l ∈ logs, l.blockNumber = number
  sorted : ∀ l ∈ logs, l.topic = some .pairCreated → ∀ ev, decodePairCreated l = some ev →
    ev.token0 < ev.token1
  decoded : ∀ l ∈ logs, l.topic = some .sync → (decodeSync l).isSome = true
  created : ∀ before l after, logs = before ++ l :: after → Chain.PairTopic l →
    db.pairs.contains l.address = true ∨ ∃ k ∈ before, Creates k l.address

/-- An amount of a stablecoin has a figure that fits. -/
def LegFits (t : Token) (amount : Nat) : Prop :=
  t.isStable = true → ∀ d, t.decimals = some d → (amount : ℚ) / 10 ^ d < usdBound

/-- Of two amounts the first that has a figure has one that fits. -/
structure SidesFit (t₀ : Token) (amount₀ : Nat) (t₁ : Token) (amount₁ : Nat) : Prop where
  first : LegFits t₀ amount₀
  second : ¬(t₀.isStable = true ∧ t₀.decimals.isSome = true) → LegFits t₁ amount₁

/-- The row of a log has an index and a figure that fit: a swap with one side coming in is
valued at it or at what goes out, a deposit or withdrawal at twice one of its sides. -/
structure LogFits (cfg : Config) (header : Block) (ix : Indexer) (l : Log) : Prop where
  pair : ∀ p, pairOf header l = some p → l.index < 2 ^ 31
  swap : ∀ s p, swapOf cfg header l = some s → ix.knownPairs[l.address]? = some p →
    l.index < 2 ^ 31 ∧
      (0 < s.amount0In → s.amount1In = 0 →
        SidesFit (ix.token p.token0Address) s.amount0In (ix.token p.token1Address) s.amount1Out) ∧
      (0 < s.amount1In → s.amount0In = 0 →
        SidesFit (ix.token p.token1Address) s.amount1In (ix.token p.token0Address) s.amount0Out)
  liquidity : ∀ e, liquidityOf cfg header l = some e →
    l.index < 2 ^ 31 ∧ ∀ p, ix.knownPairs[e.pairAddress]? = some p →
      SidesFit (ix.token p.token0Address) (e.amount0 * 2) (ix.token p.token1Address) (e.amount1 * 2)

def price0 (cfg : Config) (ix : Indexer) (p : Pair) : Option ℚ :=
  ((pricingEngine cfg ix).priceUSD (ix.token p.token0Address)).map Price.usd

def price1 (cfg : Config) (ix : Indexer) (p : Pair) : Option ℚ :=
  ((pricingEngine cfg ix).priceUSD (ix.token p.token1Address)).map Price.usd

/-- The prices of both tokens and the TVL of a pair fit. -/
structure PricesFit (cfg : Config) (ix : Indexer) (p : Pair) : Prop where
  token0 : InRange (price0 cfg ix p)
  token1 : InRange (price1 cfg ix p)
  tvl : ∀ usd₀ usd₁ d₀ d₁, price0 cfg ix p = some usd₀ → price1 cfg ix p = some usd₁ →
    (ix.token p.token0Address).decimals = some d₀ → (ix.token p.token1Address).decimals = some d₁ →
      (p.reserve0 : ℚ) / 10 ^ d₀ * usd₀ + p.reserve1 / 10 ^ d₁ * usd₁ < usdBound

/-- At most 77 decimals, and texts that are valid where they were cut. -/
structure RecordFits (t : Token) : Prop where
  decimals : ∀ d, t.decimals = some d → d ≤ 77
  symbol : ∀ x, t.symbol = some x → validString x = true
  name : ∀ x, t.name = some x → validString x = true

/-- What a block's content must meet, with the memory as it is after each log. -/
structure Storable (cfg : Config) (header : Block) (number : Nat) (tokens : List Token)
    (logs : List Log) (ix : Indexer) : Prop where
  heights : cfg.chainID < 2 ^ 63 ∧ number < 2 ^ 63 ∧ header.number < 2 ^ 63 ∧
    header.timestamp < 2 ^ 63
  tokens : ∀ t ∈ tokens, RecordFits t
  rows : ∀ before l after, logs = before ++ l :: after →
    LogFits cfg header (before.foldl (memoryLog cfg header) ix) l
  prices : ∀ a ∈ syncedPairs logs, ∀ p,
    (logs.foldl (memoryLog cfg header) ix).knownPairs[a]? = some p →
      PricesFit cfg (logs.foldl (memoryLog cfg header) ix) p

variable {cfg : Config} {o : Outside} {header : Block} {ix' : Indexer} {db db' : Database} {l : Log}
variable {logs : List Log} {tokens : List Token} {number : Nat}

section Sides

variable {t t₀ t₁ : Token} {amount amount₀ amount₁ : Nat}

theorem stableLeg_inRange_iff : InRange (stableLeg t amount) ↔ LegFits t amount := by
  rw [stableLeg, LegFits]
  split
  · rename_i hstable
    simp only [hstable, forall_const, InRange, scaleDown, Option.map_eq_some_iff]
    exact ⟨fun h d hd => h _ ⟨d, hd, rfl⟩, by rintro h _ ⟨d, hd, rfl⟩; exact h d hd⟩
  · rename_i hstable
    exact iff_of_true (fun _ h => (by cases h)) fun h => absurd h hstable

theorem stableLeg_eq_none_iff :
    stableLeg t amount = none ↔ ¬(t.isStable = true ∧ t.decimals.isSome = true) := by
  rw [stableLeg, scaleDown]
  rcases t.isStable with _ | _ <;> rcases t.decimals with _ | d <;> simp

theorem sidesFit_iff : SidesFit t₀ amount₀ t₁ amount₁ ↔
    InRange ((stableLeg t₀ amount₀).or (stableLeg t₁ amount₁)) := by
  have hfirst : InRange (stableLeg t₀ amount₀) ↔ LegFits t₀ amount₀ := stableLeg_inRange_iff
  have hsecond : InRange (stableLeg t₁ amount₁) ↔ LegFits t₁ amount₁ := stableLeg_inRange_iff
  have hnone : stableLeg t₀ amount₀ = none ↔ ¬(t₀.isStable = true ∧ t₀.decimals.isSome = true) :=
    stableLeg_eq_none_iff
  rcases hleg : stableLeg t₀ amount₀ with _ | v
  · rw [Option.none_or, hsecond]
    rw [hleg] at hfirst
    exact ⟨fun h => h.second (hnone.mp hleg), fun h => ⟨hfirst.mp fun _ hr => (by cases hr), fun _ => h⟩⟩
  · rw [Option.some_or, ← hleg, hfirst]
    exact ⟨fun h => h.first, fun h => ⟨h, fun hn => absurd (hnone.mpr hn) (by rw [hleg]; simp)⟩⟩

theorem stableLegUSD_eq_or :
    stableLegUSD t₀ amount₀ t₁ amount₁ = (stableLeg t₀ amount₀).or (stableLeg t₁ amount₁) := by
  rw [stableLegUSD]
  rcases stableLeg t₀ amount₀ with _ | v <;> rfl

theorem stableLeg_double : stableLeg t (amount * 2) = (stableLeg t amount).map fun side => side * 2 := by
  rw [stableLeg, stableLeg, scaleDown, scaleDown]
  split
  · rcases t.decimals with _ | d
    · rfl
    · simp only [Option.map_some, Nat.cast_mul, Nat.cast_ofNat, div_mul_eq_mul_div]
  · rfl

theorem valuedSwap_inRange_iff {s : Swap} {p : Pair} :
    InRange (ix.valuedSwap s p).amountUSD ↔
      (0 < s.amount0In → s.amount1In = 0 →
        SidesFit (ix.token p.token0Address) s.amount0In (ix.token p.token1Address) s.amount1Out) ∧
      (0 < s.amount1In → s.amount0In = 0 →
        SidesFit (ix.token p.token1Address) s.amount1In (ix.token p.token0Address) s.amount0Out) := by
  rw [valuedSwap, normalizeSwap]
  dsimp only
  split
  · rename_i hin
    rw [swapUSD]
    dsimp only
    rw [stableLegUSD_eq_or, ← sidesFit_iff]
    exact ⟨fun h => ⟨fun _ _ => h, fun h₁ _ => absurd h₁ hin.2⟩, fun h => h.1 hin.1 (by omega)⟩
  · rename_i hnot
    split
    · rename_i hin
      rw [swapUSD]
      dsimp only
      rw [stableLegUSD_eq_or, ← sidesFit_iff]
      exact ⟨fun h => ⟨fun h₀ _ => absurd h₀ hin.2, fun _ _ => h⟩, fun h => h.2 hin.1 (by omega)⟩
    · rename_i hnot'
      exact iff_of_true (fun _ h => (by cases h)) ⟨fun h₀ h₁ => absurd ⟨h₀, by omega⟩ hnot,
        fun h₁ h₀ => absurd ⟨h₁, by omega⟩ hnot'⟩

theorem liquidityUSD_inRange_iff {pair : Address} :
    InRange (ix.liquidityUSD pair amount₀ amount₁) ↔ ∀ p, ix.knownPairs[pair]? = some p →
      SidesFit (ix.token p.token0Address) (amount₀ * 2) (ix.token p.token1Address) (amount₁ * 2) := by
  rw [liquidityUSD]
  split
  · rename_i hnone
    exact iff_of_true (fun _ h => (by cases h)) fun p hp => (by cases hnone.symm.trans hp)
  · rename_i p hp
    rw [hp]
    simp only [Option.some.injEq, forall_eq', sidesFit_iff, stableLeg_double]
    rcases stableLeg (ix.token p.token0Address) amount₀ with _ | side
    · rfl
    · rfl

theorem pairTVL_inRange_iff {r₀ r₁ : Nat} {p₀ p₁ : Option ℚ} :
    InRange (pairTVL r₀ t₀ p₀ r₁ t₁ p₁) ↔
      ∀ usd₀ usd₁ d₀ d₁, p₀ = some usd₀ → p₁ = some usd₁ → t₀.decimals = some d₀ →
        t₁.decimals = some d₁ → (r₀ : ℚ) / 10 ^ d₀ * usd₀ + r₁ / 10 ^ d₁ * usd₁ < usdBound := by
  constructor
  · rintro h usd₀ usd₁ d₀ d₁ rfl rfl hd₀ hd₁
    exact h _ (by simp only [pairTVL, scaleDown, hd₀, hd₁, Option.map_some])
  · intro h v hv
    unfold pairTVL at hv
    split at hv
    · rename_i usd₀ usd₁ x₀ x₁ hx₀ hx₁
      obtain ⟨d₀, hd₀, rfl⟩ := Option.map_eq_some_iff.mp hx₀
      obtain ⟨d₁, hd₁, rfl⟩ := Option.map_eq_some_iff.mp hx₁
      rw [← Option.some.inj hv]
      exact h usd₀ usd₁ d₀ d₁ rfl rfl hd₀ hd₁
    · cases hv

end Sides

/-- Statements that are accepted or not whatever the earlier ones did. -/
theorem runAll_some_iff {P : Database → Prop} {A : Statement → Prop} {statements : List Statement}
    (hkeep : ∀ st ∈ statements, ∀ d, P d → P (st.effect d))
    (hsame : ∀ st ∈ statements, ∀ d, P d → (st.allowed d = true ↔ A st)) (hP : P db) :
    (∃ db', runAll statements db = some db') ↔ ∀ st ∈ statements, A st := by
  induction statements generalizing db with
  | nil => exact iff_of_true ⟨db, rfl⟩ fun st hst => (List.not_mem_nil hst).elim
  | cons st statements ih =>
    have hrest := ih (fun st' hst' => hkeep st' (List.mem_cons_of_mem st hst'))
      (fun st' hst' => hsame st' (List.mem_cons_of_mem st hst'))
      (hkeep st List.mem_cons_self db hP)
    have hfirst := hsame st List.mem_cons_self db hP
    rw [List.forall_mem_cons, ← hrest, ← hfirst]
    simp only [runAll, List.foldlM_cons, Statement.run]
    by_cases ha : st.allowed db = true
    · simp [ha]
    · simp [ha]

section Records

variable {abi : ERC20ABI}

theorem stringCall_text {answer : Option (List UInt8)} {x : List UInt8}
    (h : stringCall abi answer = some x) : x.contains 0 = false := by
  have hsanitised : ∃ raw, sanitise raw = some x := by
    unfold stringCall at h
    split at h
    · cases h
    · split at h
      · cases h
      · split at h
        · exact ⟨_, h⟩
        · split at h
          · exact ⟨_, h⟩
          · cases h
  obtain ⟨raw, hraw⟩ := hsanitised
  have hcontrol := sanitise_control hraw
  rw [List.any_eq_false] at hcontrol
  rw [List.contains_eq_any_beq, List.any_eq_false]
  intro b hb hzero
  have hb0 : b = 0 := by simpa using (beq_iff_eq.mp hzero).symm
  exact hcontrol b hb (by rw [hb0]; decide)

theorem text_iff {answer : Option (List UInt8)} :
    Database.text (stringCall abi answer) = true ↔
      ∀ x, stringCall abi answer = some x → validString x = true := by
  rcases h : stringCall abi answer with _ | x
  · exact iff_of_true rfl fun x hx => (by cases hx)
  · have hzero := stringCall_text h
    simp only [Database.text, Option.all_some, hzero, Bool.not_false, Bool.and_true,
      Option.some.injEq, forall_eq']

theorem upsertToken_allowed_iff {t : Token} (ht : Metadata cfg abi t) :
    (Database.upsertToken t).allowed db = true ↔ RecordFits t := by
  obtain ⟨address, name, symbol, decimals, rfl⟩ := ht
  simp only [Database.upsertToken, Bool.and_eq_true]
  constructor
  · rintro ⟨⟨hsymbol, hname⟩, hdecimals⟩
    refine ⟨fun d hd => ?_, text_iff.mp hsymbol, text_iff.mp hname⟩
    rw [hd] at hdecimals
    exact of_decide_eq_true hdecimals
  · rintro ⟨hdecimals, hsymbol, hname⟩
    refine ⟨⟨text_iff.mpr hsymbol, text_iff.mpr hname⟩, ?_⟩
    rcases hd : (applyTokenFlags cfg (tokenMetadata abi address name symbol decimals)).decimals
      with _ | d
    · rfl
    · exact decide_eq_true (hdecimals d hd)

theorem openingStatements_iff {addresses : List Address} (hfetched : Fetched cfg abi addresses tokens) :
    (∃ db', runAll (openingStatements header tokens) db = some db') ↔
      header.number < 2 ^ 63 ∧ header.timestamp < 2 ^ 63 ∧ ∀ t ∈ tokens, RecordFits t := by
  rw [runAll_some_iff (P := fun _ => True) (A := fun st => st.allowed db = true)
    (fun _ _ _ _ => True.intro) (fun st hst d _ => ?_) True.intro, openingStatements,
    List.forall_mem_cons, List.forall_mem_map]
  · have hblock : (Database.insertBlock header).allowed db = true ↔
        header.number < 2 ^ 63 ∧ header.timestamp < 2 ^ 63 := by
      simp [Database.insertBlock, Database.bigint]
    rw [hblock, and_assoc]
    refine and_congr_right fun _ => and_congr_right fun _ => ?_
    exact forall₂_congr fun t ht => upsertToken_allowed_iff (hfetched.metadata t ht).1
  · rcases List.mem_cons.mp hst with rfl | hst
    · exact Iff.rfl
    · obtain ⟨t, -, rfl⟩ := List.mem_map.mp hst
      exact Iff.rfl

end Records

/-- The tokens of the pairs that a block creates are stored. -/
def TokensStored (header : Block) (logs : List Log) (db : Database) : Prop :=
  ∀ l ∈ logs, ∀ p, pairOf header l = some p →
    db.tokens.contains p.token0Address = true ∧ db.tokens.contains p.token1Address = true

theorem numeric78_of_word {v : Nat} (h : v < 2 ^ 256) : Database.numeric78 v = true :=
  decide_eq_true (h.trans (by norm_num))

section Allowed

variable {p : Pair} {w : Swap} {e : LiquidityEvent}

theorem created_allowed_iff (hp : pairOf header l = some p) (hnumber : l.blockNumber < 2 ^ 63)
    (htime : header.timestamp < 2 ^ 63) (hsorted : p.token0Address < p.token1Address)
    (htokens : db.tokens.contains p.token0Address = true ∧
      db.tokens.contains p.token1Address = true) :
    (Database.upsertPair p).allowed db = true ↔ l.index < 2 ^ 31 := by
  obtain ⟨-, ev, -, rfl⟩ := pairOf_eq_some.mp hp
  simp only [Database.upsertPair, createdPair, Database.bigint, Database.integer,
    Bool.and_eq_true, Bool.or_eq_true]
  have hzero : Database.numeric78 0 = true := numeric78_of_word (by norm_num)
  exact ⟨fun h => of_decide_eq_true h.1.1.1.2, fun h => ⟨⟨⟨⟨⟨⟨⟨hzero, hzero⟩, hzero⟩,
    decide_eq_true hnumber⟩, decide_eq_true h⟩, decide_eq_true htime⟩, decide_eq_true hsorted⟩,
    Or.inr htokens⟩⟩

theorem swapped_allowed_iff (hw : swapOf cfg header l = some w)
    (hchain : cfg.chainID < 2 ^ 63) (hnumber : l.blockNumber < 2 ^ 63)
    (htime : header.timestamp < 2 ^ 63) (hpair : db.pairs.contains l.address = true) :
    (Database.insertSwap (ix.valuedSwap w p)).allowed db = true ↔
      l.index < 2 ^ 31 ∧
        (0 < w.amount0In → w.amount1In = 0 →
          SidesFit (ix.token p.token0Address) w.amount0In (ix.token p.token1Address) w.amount1Out) ∧
        (0 < w.amount1In → w.amount0In = 0 →
          SidesFit (ix.token p.token1Address) w.amount1In (ix.token p.token0Address) w.amount0Out) := by
  obtain ⟨-, ev, hev, rfl⟩ := swapOf_eq_some.mp hw
  obtain ⟨h₀, h₁, h₂, h₃⟩ := decodeSwap_amounts_lt hev
  have husd : ∀ v, (ix.valuedSwap (swapRow cfg header l ev) p).amountUSD = some v → 0 ≤ v :=
    fun v hv => swapUSD_nonneg hv
  rw [← valuedSwap_inRange_iff, ← numeric38_iff husd]
  have hin : (ix.valuedSwap (swapRow cfg header l ev) p).amountIn.all Database.numeric78 = true := by
    rw [valuedSwap, normalizeSwap]
    split
    · exact numeric78_of_word h₀
    · split
      · exact numeric78_of_word h₁
      · rfl
  have hout : (ix.valuedSwap (swapRow cfg header l ev) p).amountOut.all Database.numeric78 = true := by
    rw [valuedSwap, normalizeSwap]
    split
    · exact numeric78_of_word h₃
    · split
      · exact numeric78_of_word h₂
      · rfl
  obtain ⟨hamount₀, hamount₁, hamount₂, hamount₃⟩ := valuedSwap_amounts ix (swapRow cfg header l ev) p
  change _ = ev.amount0In at hamount₀
  change _ = ev.amount1In at hamount₁
  change _ = ev.amount0Out at hamount₂
  change _ = ev.amount1Out at hamount₃
  have hfields : (ix.valuedSwap (swapRow cfg header l ev) p).chainID = cfg.chainID ∧
      (ix.valuedSwap (swapRow cfg header l ev) p).logIndex = l.index ∧
      (ix.valuedSwap (swapRow cfg header l ev) p).blockNumber = l.blockNumber ∧
      (ix.valuedSwap (swapRow cfg header l ev) p).timestamp = header.timestamp ∧
      (ix.valuedSwap (swapRow cfg header l ev) p).pairAddress = l.address := by
    rw [valuedSwap, normalizeSwap]
    split
    · exact ⟨rfl, rfl, rfl, rfl, rfl⟩
    · split <;> exact ⟨rfl, rfl, rfl, rfl, rfl⟩
  obtain ⟨hf₀, hf₁, hf₂, hf₃, hf₄⟩ := hfields
  generalize ix.valuedSwap (swapRow cfg header l ev) p = v at *
  simp only [Database.insertSwap, hin, hout, hamount₀, hamount₁, hamount₂, hamount₃, hf₀, hf₁, hf₂,
    hf₃, hf₄, hpair, numeric78_of_word h₀, numeric78_of_word h₁, numeric78_of_word h₂,
    numeric78_of_word h₃, Database.bigint, Database.integer, Bool.and_eq_true, decide_eq_true_eq,
    Bool.or_true, and_true]
  exact ⟨fun h => ⟨h.1.1.1.2, h.2⟩, fun h => ⟨⟨⟨⟨hchain, h.1⟩, hnumber⟩, htime⟩, h.2⟩⟩

theorem deposited_allowed_iff (he : liquidityOf cfg header l = some e)
    (hchain : cfg.chainID < 2 ^ 63) (hnumber : l.blockNumber < 2 ^ 63)
    (htime : header.timestamp < 2 ^ 63) (hpair : db.pairs.contains l.address = true) :
    (Database.insertLiquidityEvent (ix.valuedLiquidity e)).allowed db = true ↔
      l.index < 2 ^ 31 ∧ ∀ p, ix.knownPairs[e.pairAddress]? = some p →
        SidesFit (ix.token p.token0Address) (e.amount0 * 2) (ix.token p.token1Address)
          (e.amount1 * 2) := by
  have hfields : e.chainID = cfg.chainID ∧ e.logIndex = l.index ∧ e.blockNumber = l.blockNumber ∧
      e.timestamp = header.timestamp ∧ e.pairAddress = l.address ∧ e.amount0 < 2 ^ 256 ∧
      e.amount1 < 2 ^ 256 := by
    unfold liquidityOf at he
    split at he
    · obtain ⟨ev, hev, rfl⟩ := Option.map_eq_some_iff.mp he
      exact ⟨rfl, rfl, rfl, rfl, rfl, decodeMint_amounts_lt hev⟩
    · obtain ⟨ev, hev, rfl⟩ := Option.map_eq_some_iff.mp he
      exact ⟨rfl, rfl, rfl, rfl, rfl, decodeBurn_amounts_lt hev⟩
    · cases he
  obtain ⟨hf₀, hf₁, hf₂, hf₃, hf₄, h₀, h₁⟩ := hfields
  have husd : ∀ v, ix.liquidityUSD e.pairAddress e.amount0 e.amount1 = some v → 0 ≤ v :=
    fun v hv => liquidityUSD_nonneg hv
  rw [← liquidityUSD_inRange_iff, ← numeric38_iff husd]
  simp only [Database.insertLiquidityEvent, valuedLiquidity, hf₀, hf₁, hf₂, hf₃, hf₄, hpair,
    numeric78_of_word h₀, numeric78_of_word h₁, Database.bigint, Database.integer,
    Bool.and_eq_true, decide_eq_true_eq, Bool.or_true, and_true]
  exact ⟨fun h => ⟨h.1.1.1.2, h.2⟩, fun h => ⟨⟨⟨⟨hchain, h.1⟩, hnumber⟩, htime⟩, h.2⟩⟩

end Allowed

theorem forall_split_cons {α : Type} {a : α} {as : List α} {P : List α → α → Prop} :
    (∀ before x after, a :: as = before ++ x :: after → P before x) ↔
      P [] a ∧ ∀ before x after, as = before ++ x :: after → P (a :: before) x := by
  constructor
  · intro h
    exact ⟨h [] a as rfl, fun before x after has => h (a :: before) x after (by rw [has]; rfl)⟩
  · rintro ⟨hfirst, hrest⟩ before x after has
    rcases before with _ | ⟨b, before⟩
    · obtain ⟨rfl, rfl⟩ := List.cons.inj has
      exact hfirst
    · obtain ⟨rfl, hrest'⟩ := List.cons.inj has
      exact hrest before x after hrest'

theorem pairOf_of_creates (header : Block) {a : Address} (h : Creates l a) :
    ∃ p, pairOf header l = some p ∧ p.address = a := by
  obtain ⟨htopic, ev, hev, rfl⟩ := h
  exact ⟨createdPair header l ev, pairOf_eq_some.mpr ⟨htopic, ev, hev, rfl⟩, rfl⟩

theorem stepLog_iff (htokens : TokensStored header logs db) (hl : l ∈ logs)
    (hchain : cfg.chainID < 2 ^ 63) (hnumber : l.blockNumber < 2 ^ 63)
    (htime : header.timestamp < 2 ^ 63)
    (hsorted : ∀ p, pairOf header l = some p → p.token0Address < p.token1Address)
    (hpair : Chain.PairTopic l → db.pairs.contains l.address = true) :
    (∃ t, stepLog cfg header (ix, db) l = some t) ↔ LogFits cfg header ix l := by
  rw [stepLog]
  rcases ha : applyLog cfg header ix l with _ | ⟨statement, ix₁⟩
  · obtain ⟨hcreated, hdeposited, hswapped⟩ := skipped_of_applyLog ha
    refine iff_of_true ⟨_, rfl⟩ ⟨fun p hp => ?_, fun w p hw hp => ?_, fun e he => ?_⟩
    · rw [hcreated] at hp
      cases hp
    · rcases hswapped with hnone | hnone
      · rw [hnone] at hw
        cases hw
      · rw [hnone] at hp
        cases hp
    · rw [hdeposited] at he
      cases he
  · have hallowed : (∃ t, ((statement.run db).map fun d => (ix₁, d)) = some t) ↔
        statement.allowed db = true := by
      rw [Statement.run]
      by_cases h : statement.allowed db = true
      · simp [h]
      · simp [h]
    change (∃ t, ((statement.run db).map fun d => (ix₁, d)) = some t) ↔ _
    rw [hallowed]
    cases applied_of_applyLog ha with
    | created p hp =>
      have htopic := (pairOf_eq_some.mp hp).1
      rw [created_allowed_iff hp hnumber htime (hsorted p hp) (htokens l hl p hp)]
      constructor
      · refine fun hindex => ⟨fun _ _ => hindex, fun w _ hw => ?_, fun e he => ?_⟩
        · rw [swapOf_eq_none (by simp [htopic])] at hw
          cases hw
        · rw [liquidityOf_eq_none (by simp [htopic]) (by simp [htopic])] at he
          cases he
      · exact fun h => h.pair p hp
    | synced ev htopic hev =>
      obtain ⟨h₀, h₁⟩ := decodeSync_reserves_lt hev
      refine iff_of_true ?_ ⟨fun p hp => ?_, fun w _ hw => ?_, fun e he => ?_⟩
      · simp only [Database.setPairReserves, numeric78_of_word h₀, numeric78_of_word h₁,
          Database.bigint, hnumber, decide_true, Bool.and_self]
      · rw [pairOf_eq_none (by simp [htopic])] at hp
        cases hp
      · rw [swapOf_eq_none (by simp [htopic])] at hw
        cases hw
      · rw [liquidityOf_eq_none (by simp [htopic]) (by simp [htopic])] at he
        cases he
    | swapped w p hw hp =>
      have htopic := (swapOf_eq_some.mp hw).1
      rw [swapped_allowed_iff hw hchain hnumber htime (hpair ⟨.swap, by decide, htopic⟩)]
      constructor
      · refine fun hfits => ⟨fun q hq => ?_, fun w' p' hw' hp' => ?_, fun e he => ?_⟩
        · rw [pairOf_eq_none (by simp [htopic])] at hq
          cases hq
        · cases hw.symm.trans hw'
          cases hp.symm.trans hp'
          exact hfits
        · rw [liquidityOf_eq_none (by simp [htopic]) (by simp [htopic])] at he
          cases he
      · exact fun h => h.swap w p hw hp
    | deposited e he =>
      have htopic := (liquidityOf_fields he).1
      have hlocal : Chain.PairTopic l := by
        rcases htopic with htopic | htopic
        · exact ⟨.mint, by decide, htopic⟩
        · exact ⟨.burn, by decide, htopic⟩
      rw [deposited_allowed_iff he hchain hnumber htime (hpair hlocal)]
      constructor
      · refine fun hfits => ⟨fun q hq => ?_, fun w _ hw => ?_, fun e' he' => ?_⟩
        · rw [pairOf_eq_none (by rcases htopic with h | h <;> simp [h])] at hq
          cases hq
        · rw [swapOf_eq_none (by rcases htopic with h | h <;> simp [h])] at hw
          cases hw
        · cases he.symm.trans he'
          exact hfits
      · exact fun h => h.liquidity e he

theorem stepLog_pairs (hstep : stepLog cfg header (ix, db) l = some (ix', db')) :
    (∀ a, db.pairs.contains a = true → db'.pairs.contains a = true) ∧
      ∀ a, Creates l a → db'.pairs.contains a = true := by
  rcases stepLog_cases hstep with ⟨hnone, rfl, rfl⟩ | ⟨statement, ha, -, rfl⟩
  · refine ⟨fun _ h => h, fun a hcreates => ?_⟩
    obtain ⟨p, hp, -⟩ := pairOf_of_creates header hcreates
    rw [(skipped_of_applyLog hnone).1] at hp
    cases hp
  · cases ha with
    | created p hp =>
      have hcontains : ∀ a, (db.pairs.insertIfNew p.address { p with lastSyncBlock := none }).contains a =
          (decide (a = p.address) || db.pairs.contains a) := fun a => Table.contains_insertIfNew
      refine ⟨fun a h => ?_, fun a hcreates => ?_⟩
      · exact (hcontains a).trans (by rw [h, Bool.or_true])
      · obtain ⟨q, hq, hqa⟩ := pairOf_of_creates header hcreates
        cases hp.symm.trans hq
        exact (hcontains a).trans (by simp [hqa])
    | synced ev htopic hev =>
      refine ⟨fun a h => Table.contains_modify.trans h, fun a hcreates => ?_⟩
      cases htopic.symm.trans hcreates.1
    | swapped w p hw hp =>
      refine ⟨fun _ h => h, fun a hcreates => ?_⟩
      have htopic := (swapOf_eq_some.mp hw).1.symm.trans hcreates.1
      cases htopic
    | deposited e he =>
      refine ⟨fun _ h => h, fun a hcreates => ?_⟩
      rcases (liquidityOf_fields he).1 with htopic | htopic
      · cases htopic.symm.trans hcreates.1
      · cases htopic.symm.trans hcreates.1

theorem stepLogs_pairs {rest : List Log} {t : Indexer × Database}
    (h : rest.foldlM (stepLog cfg header) (ix, db) = some t) :
    (∀ a, db.pairs.contains a = true → t.2.pairs.contains a = true) ∧
      ∀ k ∈ rest, ∀ a, Creates k a → t.2.pairs.contains a = true := by
  induction rest generalizing ix db with
  | nil =>
    cases h
    exact ⟨fun _ h => h, fun k hk => (List.not_mem_nil hk).elim⟩
  | cons l rest ih =>
    rw [List.foldlM_cons] at h
    obtain ⟨⟨ix₁, db₁⟩, hstep, ht⟩ := Option.bind_eq_some_iff.mp h
    obtain ⟨hgrown, hnew⟩ := stepLog_pairs hstep
    obtain ⟨hrest, hlater⟩ := ih ht
    refine ⟨fun a ha => hrest a (hgrown a ha), fun k hk a hcreates => ?_⟩
    rcases List.mem_cons.mp hk with rfl | hk
    · exact hrest a (hnew a hcreates)
    · exact hlater k hk a hcreates

/-- The logs of a block are all written when each of them fits where it comes. -/
theorem stepLogs_iff {rest : List Log} (htokens : TokensStored header logs db)
    (hrest : ∀ l ∈ rest, l ∈ logs) (hchain : cfg.chainID < 2 ^ 63)
    (hnumber : ∀ l ∈ logs, l.blockNumber < 2 ^ 63) (htime : header.timestamp < 2 ^ 63)
    (hsorted : ∀ l ∈ logs, ∀ p, pairOf header l = some p → p.token0Address < p.token1Address)
    (hcreated : ∀ before l after, rest = before ++ l :: after → Chain.PairTopic l →
      db.pairs.contains l.address = true ∨ ∃ k ∈ before, Creates k l.address) :
    (∃ t, rest.foldlM (stepLog cfg header) (ix, db) = some t) ↔
      ∀ before l after, rest = before ++ l :: after →
        LogFits cfg header (before.foldl (memoryLog cfg header) ix) l := by
  induction rest generalizing ix db with
  | nil =>
    refine iff_of_true ⟨_, rfl⟩ fun before l after h => ?_
    exact (List.append_ne_nil_of_right_ne_nil before (List.cons_ne_nil l after) h.symm).elim
  | cons l rest ih =>
    have hl : l ∈ logs := hrest l List.mem_cons_self
    have hfirst : (∃ t, stepLog cfg header (ix, db) l = some t) ↔ LogFits cfg header ix l := by
      refine stepLog_iff htokens hl hchain (hnumber l hl) htime (hsorted l hl) fun htopic => ?_
      rcases hcreated [] l rest rfl htopic with h | ⟨k, hk, -⟩
      · exact h
      · exact (List.not_mem_nil hk).elim
    rw [forall_split_cons (P := fun before l => LogFits cfg header
      (before.foldl (memoryLog cfg header) ix) l), List.foldl_nil, ← hfirst, List.foldlM_cons]
    have hnext : ∀ r, stepLog cfg header (ix, db) l = some r →
        ((∃ t, rest.foldlM (stepLog cfg header) r = some t) ↔
          ∀ before k after, rest = before ++ k :: after →
            LogFits cfg header ((l :: before).foldl (memoryLog cfg header) ix) k) := by
      rintro ⟨ix₁, db₁⟩ hstep
      obtain ⟨hgrown, hnew⟩ := stepLog_pairs hstep
      have hmemory : ix₁ = memoryLog cfg header ix l := stepLog_memory hstep
      have hone : [l].foldlM (stepLog cfg header) (ix, db) = some (ix₁, db₁) := by
        rw [List.foldlM_cons, hstep]
        rfl
      have hsame : db₁.tokens = db.tokens := stepLogs_tokens hone
      have htokens₁ : TokensStored header logs db₁ := by
        rw [TokensStored, hsame]
        exact htokens
      rw [ih htokens₁ (fun k hk => hrest k (List.mem_cons_of_mem l hk)), hmemory]
      · rfl
      · intro before k after h htopic
        rcases hcreated (l :: before) k after (by rw [h]; rfl) htopic with hstored | ⟨j, hj, hcreates⟩
        · exact Or.inl (hgrown _ hstored)
        · rcases List.mem_cons.mp hj with rfl | hj
          · exact Or.inl (hnew _ hcreates)
          · exact Or.inr ⟨j, hj, hcreates⟩
    constructor
    · rintro ⟨t, ht⟩
      obtain ⟨r, hr, ht⟩ := Option.bind_eq_some_iff.mp ht
      exact ⟨⟨r, hr⟩, (hnext r hr).mp ⟨t, ht⟩⟩
    · rintro ⟨⟨r, hr⟩, hfits⟩
      obtain ⟨t, ht⟩ := (hnext r hr).mpr hfits
      exact ⟨t, Option.bind_eq_some_iff.mpr ⟨r, hr, ht⟩⟩

theorem memoryLog_words {S : Address → Prop}
    (hdecoded : l.topic = some .sync → (decodeSync l).isSome = true)
    (hwords : ∀ (a : Address) p, S a → ix.knownPairs[a]? = some p →
      p.reserve0 < 2 ^ 256 ∧ p.reserve1 < 2 ^ 256)
    (a : Address) (p : Pair) (ha : S a ∨ l.topic = some .sync ∧ l.address = a)
    (hp : (memoryLog cfg header ix l).knownPairs[a]? = some p) :
    p.reserve0 < 2 ^ 256 ∧ p.reserve1 < 2 ^ 256 := by
  rw [memoryLog] at hp
  rcases happly : applyLog cfg header ix l with _ | ⟨statement, ix₁⟩
  · rw [happly] at hp
    rcases ha with ha | ⟨htopic, -⟩
    · exact hwords a p ha hp
    · obtain ⟨ev, hev⟩ := Option.isSome_iff_exists.mp (hdecoded htopic)
      simp [applyLog, htopic, hev] at happly
  · rw [happly] at hp
    have hother : l.topic ≠ some .sync → ix₁.knownPairs = ix.knownPairs →
        p.reserve0 < 2 ^ 256 ∧ p.reserve1 < 2 ^ 256 := by
      intro htopic hsame
      rcases ha with ha | ha
      · exact hwords a p ha (by rw [← hsame]; exact hp)
      · exact (htopic ha.1).elim
    cases applied_of_applyLog happly with
    | created row hrow =>
      obtain ⟨htopic, ev, -, rfl⟩ := pairOf_eq_some.mp hrow
      change (ix.knownPairs.insert _ _)[a]? = some p at hp
      rw [Table.get_insert] at hp
      split at hp
      · cases hp
        exact ⟨Nat.two_pow_pos 256, Nat.two_pow_pos 256⟩
      · rcases ha with ha | ha
        · exact hwords a p ha hp
        · cases htopic.symm.trans ha.1
    | synced ev htopic hev =>
      change (ix.knownPairs.modify l.address _)[a]? = some p at hp
      rw [Table.get_modify] at hp
      split at hp
      · obtain ⟨r, -, rfl⟩ := Option.map_eq_some_iff.mp hp
        exact decodeSync_reserves_lt hev
      · rename_i hne
        rcases ha with ha | ha
        · exact hwords a p ha hp
        · exact (hne ha.2.symm).elim
    | swapped w row hw hrow =>
      exact hother (by simp [(swapOf_eq_some.mp hw).1]) rfl
    | deposited e he =>
      refine hother ?_ rfl
      rcases (liquidityOf_fields he).1 with h | h
      · simp [h]
      · simp [h]

theorem foldl_memoryLog_words {S : Address → Prop}
    (hdecoded : ∀ l ∈ logs, l.topic = some .sync → (decodeSync l).isSome = true)
    (hwords : ∀ (a : Address) p, S a → ix.knownPairs[a]? = some p →
      p.reserve0 < 2 ^ 256 ∧ p.reserve1 < 2 ^ 256)
    (a : Address) (p : Pair) (ha : S a ∨ ∃ l ∈ logs, l.topic = some .sync ∧ l.address = a)
    (hp : (logs.foldl (memoryLog cfg header) ix).knownPairs[a]? = some p) :
    p.reserve0 < 2 ^ 256 ∧ p.reserve1 < 2 ^ 256 := by
  induction logs generalizing ix S with
  | nil =>
    rcases ha with ha | ⟨l, hl, -⟩
    · exact hwords a p ha hp
    · exact (List.not_mem_nil hl).elim
  | cons l logs ih =>
    -- the pairs that the log is the Sync of join those known to hold words
    refine ih (S := fun b => S b ∨ l.topic = some .sync ∧ l.address = b)
      (fun k hk => hdecoded k (List.mem_cons_of_mem l hk))
      (fun b q hb hq => memoryLog_words (hdecoded l List.mem_cons_self) hwords b q hb hq) ?_ hp
    rcases ha with ha | ⟨k, hk, htopic, hka⟩
    · exact Or.inl (Or.inl ha)
    · rcases List.mem_cons.mp hk with rfl | hk
      · exact Or.inl (Or.inr ⟨htopic, hka⟩)
      · exact Or.inr ⟨k, hk, htopic, hka⟩

theorem floorBucket_le (ts b : Nat) : floorBucket ts b ≤ ts := by
  rw [floorBucket]
  split
  · exact le_rfl
  · exact Nat.sub_le _ _

section Closing

variable {p : Pair} {a : Address} {bucket : Nat}

theorem snapshot_allowed_iff (hbucket : bucket = bucketHour ∨ bucket = bucketDay)
    (htime : header.timestamp < 2 ^ 63) (h₀ : p.reserve0 < 2 ^ 256) (h₁ : p.reserve1 < 2 ^ 256)
    (ha : db.pairs.contains a = true) :
    (Database.upsertPairSnapshot (snapshot cfg ix header.timestamp a p bucket)).allowed db = true ↔
      PricesFit cfg ix p := by
  have hprice : ∀ t v, ((pricingEngine cfg ix).priceUSD t).map Price.usd = some v → 0 ≤ v := by
    intro t v hv
    obtain ⟨q, hq, rfl⟩ := Option.map_eq_some_iff.mp hv
    exact priceUSD_nonneg hq
  have htvl : ∀ v, pairTVL p.reserve0 (ix.token p.token0Address) (price0 cfg ix p) p.reserve1
      (ix.token p.token1Address) (price1 cfg ix p) = some v → 0 ≤ v :=
    fun v hv => pairTVL_nonneg (hprice _) (hprice _) hv
  have hwidth : (bucket == bucketHour || bucket == bucketDay) = true := by
    rcases hbucket with rfl | rfl
    · rfl
    · rfl
  have hfloor : floorBucket header.timestamp bucket < 2 ^ 63 :=
    (floorBucket_le _ _).trans_lt htime
  have hfit₀ := numeric38_iff (hprice (ix.token p.token0Address))
  have hfit₁ := numeric38_iff (hprice (ix.token p.token1Address))
  have hfit := (numeric38_iff htvl).trans pairTVL_inRange_iff
  rw [price0, price1] at hfit
  simp only [Database.upsertPairSnapshot, snapshot, hwidth, numeric78_of_word h₀,
    numeric78_of_word h₁, Database.bigint, hfloor, decide_true, Bool.true_and, ha, Bool.and_true,
    Bool.and_eq_true, hfit₀, hfit₁, hfit]
  exact ⟨fun h => ⟨h.1.1, h.1.2, h.2⟩, fun h => ⟨⟨h.token0, h.token1⟩, h.tvl⟩⟩

theorem closing_iff (htime : header.timestamp < 2 ^ 63)
    (hwords : ∀ a ∈ syncedPairs logs, ∀ p, ix.knownPairs[a]? = some p →
      p.reserve0 < 2 ^ 256 ∧ p.reserve1 < 2 ^ 256)
    (hstored : ∀ a ∈ syncedPairs logs, db.pairs.contains a = true) :
    (∃ db', runAll (snapshotStatements cfg header ix logs ++ [cursorAt cfg number header]) db =
      some db') ↔ (∀ a ∈ syncedPairs logs, ∀ p, ix.knownPairs[a]? = some p → PricesFit cfg ix p) ∧
        cfg.chainID < 2 ^ 63 ∧ number < 2 ^ 63 := by
  have hsnapshot : ∀ snap ∈ snapshotPairs cfg header ix (syncedPairs logs), ∃ a ∈ syncedPairs logs,
      ∃ p bucket, ix.knownPairs[a]? = some p ∧ (bucket = bucketHour ∨ bucket = bucketDay) ∧
        snapshot cfg ix header.timestamp a p bucket = snap := by
    intro snap hsnap
    obtain ⟨a, ha, hsnap⟩ := List.mem_flatMap.mp hsnap
    rcases hp : ix.knownPairs[a]? with _ | p
    · rw [hp] at hsnap
      exact (List.not_mem_nil hsnap).elim
    · rw [hp] at hsnap
      obtain ⟨bucket, hbucket, rfl⟩ := List.mem_map.mp hsnap
      exact ⟨a, ha, p, bucket, hp, by simpa using hbucket, rfl⟩
  rw [runAll_some_iff (P := fun d => d.pairs = db.pairs) (A := fun st => st.allowed db = true)
    (fun st hst d hd => ?_) (fun st hst d hd => ?_) rfl, List.forall_mem_append,
    List.forall_mem_singleton, snapshotStatements, List.forall_mem_map]
  · have hcursor : (cursorAt cfg number header).allowed db = true ↔
        cfg.chainID < 2 ^ 63 ∧ number < 2 ^ 63 := by
      simp only [cursorAt, Database.setIndexerState, Database.bigint, Bool.and_eq_true,
        decide_eq_true_eq]
    rw [hcursor]
    refine and_congr_left fun _ => ⟨fun h a ha p hp => ?_, fun h snap hsnap => ?_⟩
    · obtain ⟨h₀, h₁⟩ := hwords a ha p hp
      refine (snapshot_allowed_iff (Or.inl rfl) htime h₀ h₁ (hstored a ha)).mp (h _ ?_)
      refine List.mem_flatMap.mpr ⟨a, ha, ?_⟩
      rw [hp]
      exact List.mem_cons_self
    · obtain ⟨a, ha, p, bucket, hp, hbucket, rfl⟩ := hsnapshot snap hsnap
      obtain ⟨h₀, h₁⟩ := hwords a ha p hp
      exact (snapshot_allowed_iff hbucket htime h₀ h₁ (hstored a ha)).mpr (h a ha p hp)
  · rcases List.mem_append.mp hst with hst | hst
    · obtain ⟨snap, -, rfl⟩ := List.mem_map.mp hst
      exact hd
    · rw [List.mem_singleton.mp hst]
      exact hd
  · rcases List.mem_append.mp hst with hst | hst
    · obtain ⟨snap, -, rfl⟩ := List.mem_map.mp hst
      simp only [Database.upsertPairSnapshot, hd]
    · rw [List.mem_singleton.mp hst]
      exact Iff.rfl

end Closing

section Block

variable {abi : ERC20ABI} {p : Pair} {a : Address}

theorem mem_createdTokens (hl : l ∈ logs) (hp : pairOf header l = some p) :
    p.token0Address ∈ createdTokens logs ∧ p.token1Address ∈ createdTokens logs := by
  obtain ⟨htopic, ev, hev, rfl⟩ := pairOf_eq_some.mp hp
  constructor
  · refine List.mem_flatMap.mpr ⟨l, hl, ?_⟩
    rw [if_pos htopic, hev]
    exact List.mem_cons_self
  · refine List.mem_flatMap.mpr ⟨l, hl, ?_⟩
    rw [if_pos htopic, hev]
    exact List.mem_cons_of_mem _ List.mem_cons_self

theorem opening_tokens (hfetched : Fetched cfg abi (createdTokens logs) tokens)
    (hopen : runAll (openingStatements header tokens) db = some db') : TokensStored header logs db' := by
  rw [openingStatements, runAll, List.foldlM_cons] at hopen
  obtain ⟨db₀, -, htokens⟩ := Option.bind_eq_some_iff.mp hopen
  have hcontains : ∀ a ∈ createdTokens logs, db'.tokens.contains a = true := by
    intro a ha
    obtain ⟨t, ht, hta⟩ := hfetched.covers a ha
    have hrow := upsertTokens_get (a := a) hfetched.distinct htokens
    rw [recordOf_of_mem hfetched.distinct ht hta] at hrow
    exact Table.contains_of_get hrow
  intro l hl p hp
  obtain ⟨h₀, h₁⟩ := mem_createdTokens hl hp
  exact ⟨hcontains _ h₀, hcontains _ h₁⟩

theorem mem_syncedPairs : a ∈ syncedPairs logs ↔ ∃ l ∈ logs, l.topic = some .sync ∧ l.address = a := by
  simp [syncedPairs, List.mem_eraseDups, and_assoc]

theorem Sourced.stored {t : Indexer × Database} (hsourced : Sourced number logs db)
    (hpairs : db'.pairs = db.pairs) (h : logs.foldlM (stepLog cfg header) (ix, db') = some t)
    (ha : a ∈ syncedPairs logs) : t.2.pairs.contains a = true := by
  obtain ⟨l, hl, htopic, rfl⟩ := mem_syncedPairs.mp ha
  obtain ⟨hgrown, hnew⟩ := stepLogs_pairs h
  obtain ⟨before, after, hsplit⟩ := List.append_of_mem hl
  rcases hsourced.created before l after hsplit ⟨.sync, by decide, htopic⟩ with hstored | ⟨k, hk, hcreates⟩
  · exact hgrown _ (by rw [hpairs]; exact hstored)
  · exact hnew k (by rw [hsplit]; exact List.mem_append_left _ hk) _ hcreates

/-- A block is written when its content meets the schema, and only then. -/
theorem indexBlock_iff (hsourced : Sourced number logs db)
    (hfetched : Fetched cfg abi (createdTokens logs) tokens) :
    (∃ r, indexBlock cfg header number tokens logs (ix, db) = some r) ↔
      Storable cfg header number tokens logs ix := by
  have hopens : (∃ db₁, runAll (openingStatements header tokens) db = some db₁) ↔
      header.number < 2 ^ 63 ∧ header.timestamp < 2 ^ 63 ∧ ∀ t ∈ tokens, RecordFits t :=
    openingStatements_iff hfetched
  have hwords : ∀ a ∈ syncedPairs logs, ∀ p,
      (logs.foldl (memoryLog cfg header) ix).knownPairs[a]? = some p →
        p.reserve0 < 2 ^ 256 ∧ p.reserve1 < 2 ^ 256 :=
    fun a ha p hp => foldl_memoryLog_words (S := fun _ => False) hsourced.decoded
      (fun _ _ h => h.elim) a p (Or.inr (mem_syncedPairs.mp ha)) hp
  have hsorted : ∀ l ∈ logs, ∀ p, pairOf header l = some p → p.token0Address < p.token1Address := by
    intro l hl p hp
    obtain ⟨htopic, ev, hev, rfl⟩ := pairOf_eq_some.mp hp
    exact hsourced.sorted l hl htopic ev hev
  have hlogs : ∀ db₁, runAll (openingStatements header tokens) db = some db₁ →
      cfg.chainID < 2 ^ 63 → number < 2 ^ 63 → header.timestamp < 2 ^ 63 →
      ((∃ t, logs.foldlM (stepLog cfg header) (ix, db₁) = some t) ↔
        ∀ before l after, logs = before ++ l :: after →
          LogFits cfg header (before.foldl (memoryLog cfg header) ix) l) := by
    intro db₁ hopen hchain hnumber htime
    refine stepLogs_iff (opening_tokens hfetched hopen) (fun _ hl => hl) hchain (fun l hl => ?_) htime hsorted ?_
    · rw [hsourced.block l hl]
      exact hnumber
    · rw [(opening_rows hopen).pairs]
      exact hsourced.created
  have hcloses : ∀ db₁ t, runAll (openingStatements header tokens) db = some db₁ →
      logs.foldlM (stepLog cfg header) (ix, db₁) = some t → header.timestamp < 2 ^ 63 →
      ((∃ db', runAll (snapshotStatements cfg header t.1 logs ++ [cursorAt cfg number header]) t.2 =
        some db') ↔ (∀ a ∈ syncedPairs logs, ∀ p,
          (logs.foldl (memoryLog cfg header) ix).knownPairs[a]? = some p →
            PricesFit cfg (logs.foldl (memoryLog cfg header) ix) p) ∧
        cfg.chainID < 2 ^ 63 ∧ number < 2 ^ 63) := by
    intro db₁ t hopen hfold htime
    have hmemory : t.1 = logs.foldl (memoryLog cfg header) ix := foldlM_memory hfold
    rw [hmemory]
    exact closing_iff htime hwords
      fun a ha => hsourced.stored (opening_rows hopen).pairs hfold ha
  constructor
  · rintro ⟨⟨ix', db'⟩, hrun⟩
    obtain ⟨db₁, db₂, hopen, hfold, hclose⟩ := indexBlock_eq_some hrun
    obtain ⟨hheight, htime, hrecords⟩ := hopens.mp ⟨db₁, hopen⟩
    obtain ⟨hprices, hchain, hnumber⟩ := (hcloses db₁ (ix', db₂) hopen hfold htime).mp ⟨db', hclose⟩
    exact ⟨⟨hchain, hnumber, hheight, htime⟩, hrecords,
      (hlogs db₁ hopen hchain hnumber htime).mp ⟨(ix', db₂), hfold⟩, hprices⟩
  · rintro ⟨⟨hchain, hnumber, hheight, htime⟩, hrecords, hrows, hprices⟩
    obtain ⟨db₁, hopen⟩ := hopens.mpr ⟨hheight, htime, hrecords⟩
    obtain ⟨t, hfold⟩ := (hlogs db₁ hopen hchain hnumber htime).mpr hrows
    obtain ⟨db', hclose⟩ := (hcloses db₁ t hopen hfold htime).mpr ⟨hprices, hchain, hnumber⟩
    refine ⟨(t.1, db'), ?_⟩
    simp only [indexBlock, hopen, hfold, hclose, Option.bind_eq_bind, Option.bind_some]
    rfl

/-- With node and database available, a block is committed and the cursor moves on
to it exactly when its content meets the schema. -/
theorem processBlock_commits_iff {s : Sys} (ho : Available o)
    (hheader : ∀ k, (o.chain k).headerAt number = some header) (hsourced : Sourced number logs s.db) :
    Returns (processBlock cfg o number logs) (fun _ t => t.db.indexerState[cfg.chainID]? =
        some { chainID := cfg.chainID, lastProcessedBlock := number,
               lastProcessedBlockHash := header.hash }) s ↔
      Storable cfg header number (records cfg o logs { s with calls := s.calls + 1 }) logs
        (s.ix.loadTokens (records cfg o logs { s with calls := s.calls + 1 })) := by
  obtain ⟨-, -, -, hfetched⟩ := records_fetched cfg o logs { s with calls := s.calls + 1 }
  rw [← indexBlock_iff hsourced hfetched, ← returns_processBlock ho hheader, returns_iff]
  constructor
  · rintro ⟨_, t, hrun, -⟩
    exact ⟨t, hrun⟩
  · rintro ⟨t, hrun⟩
    obtain ⟨b, s₁, tokens, s₂, hfirst, -, -, hindex⟩ := processBlock_ok hrun
    obtain ⟨-, k, hk⟩ := (headerByNumber_triple (P := At s.ix s.db) s ⟨rfl, rfl⟩).1 b s₁ hfirst
    cases (hheader k).symm.trans hk
    exact ⟨(), t, hrun, indexBlock_cursor hindex⟩

end Block

def firstHeader : Block := { number := 1, hash := 101, parentHash := 100, timestamp := 2000 }

theorem created_sourced (db : Database) : Sourced 1 [Fork.created] db where
  block l hl := by
    rw [List.mem_singleton.mp hl]
    rfl
  sorted l hl _ ev hev := by
    rw [List.mem_singleton.mp hl] at hev
    cases hev
    decide
  decoded l hl htopic := by
    rw [List.mem_singleton.mp hl] at htopic
    cases htopic
  created before l after h htopic := by
    have hl : l ∈ [Fork.created] := by
      rw [h]
      exact List.mem_append_right _ List.mem_cons_self
    rw [List.mem_singleton.mp hl] at htopic
    obtain ⟨t, ht, heq⟩ := htopic
    cases heq
    exact absurd ht (by decide)

/-- The new pair gets its first reserves, and a stablecoin is bought of it. -/
def openingLogs : List Log :=
  [Fork.created,
    { address := 50, topic := some .sync, indexed := [], data := [4000, 8000], blockNumber := 1,
      txHash := 902, index := 1, blockHash := 101 },
    { address := 50, topic := some .swap, indexed := [9, 9], data := [5, 0, 0, 4], blockNumber := 1,
      txHash := 903, index := 2, blockHash := 101 }]

theorem openingLogs_sourced (db : Database) : Sourced 1 openingLogs db where
  block := by decide
  sorted l hl htopic ev hev := by
    rcases List.mem_cons.mp hl with rfl | hl
    · cases hev
      decide
    · exact absurd htopic ((by decide : ∀ k ∈ openingLogs.tail, k.topic ≠ some .pairCreated) l hl)
  decoded := by decide
  created := by
    refine (forall_split_cons (P := fun before l => Chain.PairTopic l →
      db.pairs.contains l.address = true ∨ ∃ k ∈ before, Creates k l.address)).mpr ⟨?_, ?_⟩
    · rintro ⟨t, ht, heq⟩
      cases heq
      exact absurd ht (by decide)
    · intro before l after h _
      have hemitter : l.address = 50 :=
        (by decide : ∀ k ∈ openingLogs.tail, k.address = 50) l
          (by rw [openingLogs, List.tail_cons, h]; exact List.mem_append_right _ List.mem_cons_self)
      rw [hemitter]
      exact .inr ⟨Fork.created, List.mem_cons_self, ⟨rfl, _, rfl, rfl⟩⟩

theorem created_storable :
    Storable Fork.cfg firstHeader 1
      (records Fork.cfg (answering (some [18])) openingLogs { started with calls := 1 })
      openingLogs (started.ix.loadTokens
        (records Fork.cfg (answering (some [18])) openingLogs { started with calls := 1 })) :=
  (processBlock_commits_iff (fun _ => rfl) (fun _ => rfl) (openingLogs_sourced _)).mp
    (by decide +kernel)

/-- A pair is created of a token with 78 decimals: its block is never committed. -/
theorem created_not_committed :
    Available (answering (some [78])) ∧
      (∀ k, ((answering (some [78])).chain k).headerAt 1 = some firstHeader) ∧
      Sourced 1 [Fork.created] started.db ∧
      ¬Returns (processBlock Fork.cfg (answering (some [78])) 1 [Fork.created]) (fun _ _ => True)
        started :=
  ⟨fun _ => rfl, fun _ => rfl, created_sourced _, by decide +kernel⟩

end Indexer

end ArkSwap.GoInternal
