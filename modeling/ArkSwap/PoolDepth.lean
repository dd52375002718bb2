import ArkSwap.PriceRoutes

/-! The TVL of a pool at the prices of the engine, next to the depth that the
engine reports of it: a token priced by a pool is worth, over its whole
reserve, what the other side is worth. -/

namespace ArkSwap.GoInternal

def Engine.worth (e : Engine) (reserve : Nat) (token : Token) : Option ℚ :=
  match scaleDown reserve token.decimals, e.priceUSD token with
  | some human, some price => some (human * price.usd)
  | _, _ => none

/-- One record for each address, and one WKASH, which is not a stablecoin. -/
structure Consistent (pools : List Pool) (token : Token) : Prop where
  oneRecord : ∀ t ∈ token :: tokensOf pools, ∀ u ∈ token :: tokensOf pools,
    t.address = u.address → t = u
  oneWKASH : OneWKASH pools
  unstable : ∀ w ∈ tokensOf pools, w.isWKASH = true → w.isStable = false

section Depth

variable {e : Engine} {pools : List Pool} {floor rate : ℚ} {token other : Token}
  {accepts : Token → Bool} {p : Pool} {usd depth : ℚ} {x y : Price} {r R : Nat}

theorem token0_mem (hp : p ∈ pools) : p.token0 ∈ tokensOf pools :=
  List.mem_flatMap.mpr ⟨p, hp, List.mem_cons_self⟩

theorem token1_mem (hp : p ∈ pools) : p.token1 ∈ tokensOf pools :=
  List.mem_flatMap.mpr ⟨p, hp, List.mem_cons_of_mem _ List.mem_cons_self⟩

theorem Pool.Holds.mem {a : Option Address} (hp : p ∈ pools) (h : p.Holds a r other R) :
    other ∈ tokensOf pools := by
  cases h with
  | zero => exact token1_mem hp
  | one => exact token0_mem hp

theorem worth_eq_some {v : ℚ} : e.worth r token = some v ↔ ∃ human x,
    scaleDown r token.decimals = some human ∧ e.priceUSD token = some x ∧ human * x.usd = v := by
  unfold Engine.worth
  rcases scaleDown r token.decimals with _ | human
  · simp
  · rcases e.priceUSD token with _ | x <;> simp

theorem pairTVL_of_worth {v₀ v₁ : ℚ} (h₀ : e.worth p.reserve0 p.token0 = some v₀)
    (h₁ : e.worth p.reserve1 p.token1 = some v₁) :
    pairTVL p.reserve0 p.token0 ((e.priceUSD p.token0).map Price.usd) p.reserve1 p.token1
      ((e.priceUSD p.token1).map Price.usd) = some (v₀ + v₁) := by
  obtain ⟨human₀, x₀, hscale₀, hprice₀, rfl⟩ := worth_eq_some.mp h₀
  obtain ⟨human₁, x₁, hscale₁, hprice₁, rfl⟩ := worth_eq_some.mp h₁
  unfold pairTVL
  rw [hprice₀, hprice₁, hscale₀, hscale₁]
  rfl

/-- The price of a token over a pool makes its reserve worth what the other side
is worth. -/
theorem Quotes.worth (h : Quotes floor token accepts rate p usd depth)
    (hone : ∀ t ∈ token :: tokensOf pools, ∀ u ∈ token :: tokensOf pools,
      t.address = u.address → t = u) (hp : p ∈ pools)
    (hx : e.priceUSD token = some x) (husd : x.usd = usd)
    (hother : ∀ u ∈ tokensOf pools, accepts u = true →
      ∃ y, e.priceUSD u = some y ∧ y.usd = rate) :
    e.worth p.reserve0 p.token0 = some (depth / 2) ∧
      e.worth p.reserve1 p.token1 = some (depth / 2) := by
  obtain ⟨hholds, haccepts, hd, hD, hr, hR, -⟩ := h
  rename_i r R d D other
  obtain ⟨y, hy, hrate⟩ := hother other (hholds.mem hp) haccepts
  have htoken : e.worth r token = some (R / 10 ^ D * rate) := by
    refine worth_eq_some.mpr ⟨_, x, by rw [hd]; rfl, hx, ?_⟩
    have hpos : (r / 10 ^ d : ℚ) ≠ 0 := by positivity
    rw [husd, mul_div_cancel₀ _ hpos]
  have hside : e.worth R other = some (R / 10 ^ D * rate) :=
    worth_eq_some.mpr ⟨_, y, by rw [hD]; rfl, hy, by rw [hrate]⟩
  rw [mul_div_cancel_left₀ _ two_ne_zero]
  cases hholds with
  | zero haddr =>
    have hsame := hone _ List.mem_cons_self _ (List.mem_cons_of_mem _ (token0_mem hp)) haddr
    rw [← hsame]
    exact ⟨htoken, hside⟩
  | one _ haddr =>
    have hsame := hone _ List.mem_cons_self _ (List.mem_cons_of_mem _ (token1_mem hp)) haddr
    rw [← hsame]
    exact ⟨hside, htoken⟩

theorem priceUSD_of_isStable (h : token.isStable = true) :
    ∃ y, e.priceUSD token = some y ∧ y.usd = 1 :=
  ⟨_, if_pos h, rfl⟩

/-- WKASH itself is priced as it is for the other tokens. -/
theorem priceUSD_of_isWKASH (hrecords : Consistent e.pools token) (hy : e.wkashPrice = some y)
    (hmem : other ∈ tokensOf e.pools) (hflag : other.isWKASH = true) :
    ∃ z, e.priceUSD other = some z ∧ z.usd = y.usd := by
  have hunstable := Bool.eq_false_iff.mp (hrecords.unstable other hmem hflag)
  rw [wkashPrice_of_directStable hrecords.oneWKASH hmem hflag] at hy
  refine ⟨y, ?_, rfl⟩
  rw [Engine.priceUSD, if_neg hunstable, hy]

theorem priceUSD_cases (hx : e.priceUSD token = some x) (hsource : x.source ≠ .stableAnchor) :
    e.directStable token = some x ∨ ∃ y, e.wkashPrice = some y ∧
      e.deepest token Token.isWKASH y.usd .viaWKASH = some x := by
  unfold Engine.priceUSD at hx
  split at hx
  · obtain rfl := Option.some.inj hx
    exact (hsource rfl).elim
  · split at hx
    · rename_i hdirect
      exact Or.inl (hdirect.trans hx)
    · unfold Engine.viaWKASH at hx
      split at hx
      · cases hx
      · exact Or.inr ⟨_, ‹_›, hx⟩

/-- The depth that comes with a price is the TVL of the pool the price is from,
half of it on each side. -/
theorem depth_eq_pairTVL (e : Engine) (token : Token) (hrecords : Consistent e.pools token)
    (x : Price) (hx : e.priceUSD token = some x) (hsource : x.source ≠ .stableAnchor) :
    ∃ p ∈ e.pools, x.sourcePair = some p.address ∧
      pairTVL p.reserve0 p.token0 ((e.priceUSD p.token0).map Price.usd) p.reserve1 p.token1
        ((e.priceUSD p.token1).map Price.usd) = x.liquidityUSD ∧
      ∃ depth, x.liquidityUSD = some depth ∧ e.worth p.reserve0 p.token0 = some (depth / 2) ∧
        e.worth p.reserve1 p.token1 = some (depth / 2) := by
  have hsides : ∃ p ∈ e.pools, ∃ depth, x.sourcePair = some p.address ∧
      x.liquidityUSD = some depth ∧ e.worth p.reserve0 p.token0 = some (depth / 2) ∧
      e.worth p.reserve1 p.token1 = some (depth / 2) := by
    rcases priceUSD_cases hx hsource with hdirect | ⟨y, hy, hvia⟩
    · obtain ⟨p, hp, usd, depth, hquotes, rfl⟩ := quotes_of_deepest hdirect
      exact ⟨p, hp, depth, rfl, rfl, hquotes.worth hrecords.oneRecord hp hx rfl
        fun u _ hstable => priceUSD_of_isStable hstable⟩
    · obtain ⟨p, hp, usd, depth, hquotes, rfl⟩ := quotes_of_deepest hvia
      exact ⟨p, hp, depth, rfl, rfl, hquotes.worth hrecords.oneRecord hp hx rfl
        fun u hu hflag => priceUSD_of_isWKASH hrecords hy hu hflag⟩
  obtain ⟨p, hp, depth, hpair, hdepth, h₀, h₁⟩ := hsides
  refine ⟨p, hp, hpair, ?_, depth, hdepth, h₀, h₁⟩
  rw [pairTVL_of_worth h₀ h₁, add_halves, hdepth]

end Depth

theorem twoLegs_depth : ∃ p ∈ sortPoolsByAddress twoLegs, some (9 : Address) = some p.address ∧
    pairTVL p.reserve0 p.token0
        ((Engine.priceUSD ⟨sortPoolsByAddress twoLegs, 100⟩ p.token0).map Price.usd) p.reserve1
        p.token1 ((Engine.priceUSD ⟨sortPoolsByAddress twoLegs, 100⟩ p.token1).map Price.usd) =
      some 30000 ∧
    ∃ depth, some 30000 = some depth ∧
      Engine.worth ⟨sortPoolsByAddress twoLegs, 100⟩ p.reserve0 p.token0 = some (depth / 2) ∧
      Engine.worth ⟨sortPoolsByAddress twoLegs, 100⟩ p.reserve1 p.token1 = some (depth / 2) :=
  depth_eq_pairTVL ⟨sortPoolsByAddress twoLegs, 100⟩ listedToken
    ⟨by decide, by unfold OneWKASH; decide, by decide⟩
    { usd := 7500, source := .viaWKASH, sourcePair := some 9, liquidityUSD := some 30000 }
    (by decide +kernel) (by decide)

end ArkSwap.GoInternal
