import ArkSwap.Lib.Best
import ArkSwap.Pricing

/-! The price of a token over a set of pools, in the terms of the set: which
pools can price it, the deepest of them, and the route through WKASH. The
engine finds this price however the pools were collected. -/

namespace ArkSwap.GoInternal

/-- The pool holds a token, with the reserve of it and the other side. -/
inductive Pool.Holds (p : Pool) (a : Option Address) : Nat → Token → Nat → Prop
  | zero : a = p.token0.address → Holds p a p.reserve0 p.token1 p.reserve1
  | one : a ≠ p.token0.address → a = p.token1.address → Holds p a p.reserve1 p.token0 p.reserve0

/-- The pool prices a token by its other side, which is worth `rate` a unit:
decimals known, reserves positive, and at least as deep as the floor. -/
inductive Quotes (floor : ℚ) (token : Token) (accepts : Token → Bool) (rate : ℚ) (p : Pool) :
    ℚ → ℚ → Prop
  | intro {r R d D : Nat} {other : Token} :
      p.Holds token.address r other R → accepts other = true →
      token.decimals = some d → other.decimals = some D → 0 < r → 0 < R →
      floor ≤ 2 * (R / 10 ^ D * rate) →
      Quotes floor token accepts rate p (R / 10 ^ D * rate / (r / 10 ^ d)) (2 * (R / 10 ^ D * rate))

/-- Of the pools that price the token, the deepest; of these the one of the
lowest address. -/
structure Deepest (pools : List Pool) (floor : ℚ) (token : Token) (accepts : Token → Bool)
    (rate : ℚ) (p : Pool) (usd depth : ℚ) : Prop where
  mem : p ∈ pools
  quotes : Quotes floor token accepts rate p usd depth
  deepest : ∀ q ∈ pools, ∀ usd' depth', Quotes floor token accepts rate q usd' depth' →
    depth' < depth ∨ depth' = depth ∧ p.address ≤ q.address

def tokensOf (pools : List Pool) : List Token := pools.flatMap fun p => [p.token0, p.token1]

def OneWKASH (pools : List Pool) : Prop :=
  ∀ t ∈ tokensOf pools, ∀ u ∈ tokensOf pools, t.isWKASH = true → u.isWKASH = true → t = u

inductive PricedAt (pools : List Pool) (floor : ℚ) (token : Token) : Option Price → Prop
  | stable : token.isStable = true → PricedAt pools floor token
      (some { usd := 1, source := .stableAnchor, sourcePair := none, liquidityUSD := none })
  | direct {p : Pool} {usd depth : ℚ} : token.isStable = false →
      Deepest pools floor token Token.isStable 1 p usd depth → PricedAt pools floor token
        (some { usd := usd, source := .directStable, sourcePair := some p.address,
                liquidityUSD := some depth })
  | viaWKASH {w : Token} {q p : Pool} {rate depthW usd depth : ℚ} : token.isStable = false →
      (∀ p ∈ pools, ∀ usd depth, ¬Quotes floor token Token.isStable 1 p usd depth) →
      w ∈ tokensOf pools → w.isWKASH = true →
      Deepest pools floor w Token.isStable 1 q rate depthW →
      Deepest pools floor token Token.isWKASH rate p usd depth → PricedAt pools floor token
        (some { usd := usd, source := .viaWKASH, sourcePair := some p.address,
                liquidityUSD := some depth })
  | unpriced : token.isStable = false →
      (∀ p ∈ pools, ∀ usd depth, ¬Quotes floor token Token.isStable 1 p usd depth) →
      (∀ w ∈ tokensOf pools, w.isWKASH = true → ∀ q rate depthW,
        Deepest pools floor w Token.isStable 1 q rate depthW →
          ∀ p ∈ pools, ∀ usd depth, ¬Quotes floor token Token.isWKASH rate p usd depth) →
      PricedAt pools floor token none

section Pools

variable {e : Engine} {pools pools' : List Pool} {floor rate : ℚ} {token w : Token}
  {accepts : Token → Bool} {source : PriceSource} {p q : Pool} {a : Option Address}
  {usd depth usd' depth' : ℚ} {x : Price}

theorem counterpart_eq_some {r R : Nat} {other : Token} :
    counterpart p a = some (other, r, R) ↔ p.Holds a r other R := by
  constructor
  · intro h
    unfold counterpart at h
    split at h
    · rename_i h₀
      obtain ⟨rfl, rfl, rfl⟩ := h
      exact .zero h₀
    · rename_i h₀
      split at h
      · rename_i h₁
        obtain ⟨rfl, rfl, rfl⟩ := h
        exact .one h₀ h₁
      · cases h
  · rintro (h₀ | ⟨h₀, h₁⟩)
    · exact if_pos h₀
    · exact (if_neg h₀).trans (if_pos h₁)

/-- Both reserves positive and both decimals known, or no price at all. -/
theorem ratio_eq_some {this other : Token} {r R : Nat} :
    ratio this r other R rate = some (usd, depth) ↔ ∃ d D, this.decimals = some d ∧
      other.decimals = some D ∧ 0 < r ∧ 0 < R ∧ usd = R / 10 ^ D * rate / (r / 10 ^ d) ∧
      depth = 2 * (R / 10 ^ D * rate) := by
  have hpos : ∀ n k : Nat, (n : ℚ) / 10 ^ k ≤ 0 ↔ n = 0 := by
    intro n k
    rw [div_le_iff₀ (by positivity), zero_mul]
    exact_mod_cast Nat.le_zero
  unfold ratio scaleDown
  rcases hd : this.decimals with _ | d
  · simp
  rcases hD : other.decimals with _ | D
  · simp
  simp only [Option.map_some, hpos]
  by_cases hzero : r = 0 ∨ R = 0
  · rw [if_pos hzero]
    constructor
    · intro h
      cases h
    · rintro ⟨-, -, -, -, hr, hR, -⟩
      omega
  · rw [if_neg hzero]
    constructor
    · intro h
      obtain ⟨rfl, rfl⟩ := Prod.mk.inj (Option.some.inj h)
      exact ⟨d, D, rfl, rfl, by omega, by omega, mul_one _, mul_comm _ _⟩
    · rintro ⟨d', D', hd', hD', -, -, rfl, rfl⟩
      obtain rfl := Option.some.inj hd'
      obtain rfl := Option.some.inj hD'
      rw [mul_one, mul_comm (2 : ℚ)]

theorem Pool.Holds.unique {r R r' R' : Nat} {other other' : Token} (h : p.Holds a r other R)
    (h' : p.Holds a r' other' R') : r = r' ∧ other = other' ∧ R = R' := by
  have heq := (counterpart_eq_some.mpr h).symm.trans (counterpart_eq_some.mpr h')
  obtain ⟨rfl, rfl, rfl⟩ := Option.some.inj heq
  exact ⟨rfl, rfl, rfl⟩

theorem Quotes.unique (h : Quotes floor token accepts rate p usd depth)
    (h' : Quotes floor token accepts rate p usd' depth') : usd = usd' ∧ depth = depth' := by
  obtain ⟨hp, -, hd, hD, -, -, -⟩ := h
  obtain ⟨hp', -, hd', hD', -, -, -⟩ := h'
  obtain ⟨rfl, rfl, rfl⟩ := hp.unique hp'
  obtain rfl := Option.some.inj (hd.symm.trans hd')
  obtain rfl := Option.some.inj (hD.symm.trans hD')
  exact ⟨rfl, rfl⟩

theorem Quotes.floor_le (h : Quotes floor token accepts rate p usd depth) : floor ≤ depth := by
  obtain ⟨-, -, -, -, -, -, hfloor⟩ := h
  exact hfloor

theorem candidate_eq_some : e.candidate token accepts rate source p = some x ↔
    ∃ usd depth, Quotes e.minLiquidityUSD token accepts rate p usd depth ∧
      x = { usd := usd, source := source, sourcePair := some p.address,
            liquidityUSD := some depth } := by
  unfold Engine.candidate
  constructor
  · intro h
    rcases hc : counterpart p token.address with _ | ⟨other, r, R⟩
    · rw [hc] at h
      cases h
    rw [hc] at h
    dsimp only at h
    split at h
    · rename_i haccepts
      rcases hr : ratio token r other R rate with _ | ⟨usd, depth⟩
      · rw [hr] at h
        cases h
      rw [hr] at h
      dsimp only at h
      split at h
      · cases h
      · rename_i hfloor
        obtain ⟨d, D, hd, hD, hrpos, hRpos, rfl, rfl⟩ := ratio_eq_some.mp hr
        exact ⟨_, _, .intro (counterpart_eq_some.mp hc) haccepts hd hD hrpos hRpos
          (not_lt.mp hfloor), (Option.some.inj h).symm⟩
    · cases h
  · rintro ⟨usd, depth, ⟨hp, haccepts, hd, hD, hr, hR, hfloor⟩, rfl⟩
    rw [counterpart_eq_some.mpr hp]
    dsimp only
    rw [if_pos haccepts, ratio_eq_some.mpr ⟨_, _, hd, hD, hr, hR, rfl, rfl⟩]
    exact if_neg (not_lt.mpr hfloor)

theorem deepest_eq_pick : e.deepest token accepts rate source =
    Best.pick (fun x : Price => x.liquidityUSD.getD 0)
      (e.pools.filterMap (e.candidate token accepts rate source)) := by
  have hstep : Engine.deeper = Best.step fun x : Price => x.liquidityUSD.getD 0 := by
    funext best x
    cases best <;> rfl
  rw [Engine.deepest, hstep]
  rfl

theorem deepest_eq_none : e.deepest token accepts rate source = none ↔
    ∀ p ∈ e.pools, ∀ usd depth, ¬Quotes e.minLiquidityUSD token accepts rate p usd depth := by
  rw [deepest_eq_pick, Best.pick_eq_none, List.filterMap_eq_nil_iff]
  constructor
  · intro h p hp usd depth hquotes
    have hnone := h p hp
    rw [candidate_eq_some.mpr ⟨usd, depth, hquotes, rfl⟩] at hnone
    cases hnone
  · intro h p hp
    rcases hx : e.candidate token accepts rate source p with _ | x
    · rfl
    · obtain ⟨usd, depth, hquotes, -⟩ := candidate_eq_some.mp hx
      exact (h p hp usd depth hquotes).elim

theorem quotes_of_deepest (h : e.deepest token accepts rate source = some x) :
    ∃ p ∈ e.pools, ∃ usd depth, Quotes e.minLiquidityUSD token accepts rate p usd depth ∧
      x = { usd := usd, source := source, sourcePair := some p.address,
            liquidityUSD := some depth } := by
  rw [deepest_eq_pick] at h
  obtain ⟨p, hp, hx⟩ := List.mem_filterMap.mp (Best.pick_isFirstBest h).mem
  exact ⟨p, hp, candidate_eq_some.mp hx⟩

/-- The scan keeps the first of the deepest, which in a sorted list is the one
of the lowest address. -/
theorem deepest_deepest (hsorted : e.pools.Pairwise fun p q => p.address ≤ q.address)
    (h : e.deepest token accepts rate source = some x) :
    ∃ p usd depth, Deepest e.pools e.minLiquidityUSD token accepts rate p usd depth ∧
      x = { usd := usd, source := source, sourcePair := some p.address,
            liquidityUSD := some depth } := by
  obtain ⟨p, hp, usd, depth, hquotes, rfl⟩ := quotes_of_deepest h
  rw [deepest_eq_pick] at h
  have hbest := Best.pick_isFirstBest h
  have hprices : (e.pools.filterMap (e.candidate token accepts rate source)).Pairwise
      fun x y => ∀ a b, x.sourcePair = some a → y.sourcePair = some b → a ≤ b := by
    refine List.Pairwise.filterMap _ ?_ hsorted
    intro p q hpq x hx y hy a b ha hb
    obtain ⟨_, _, _, rfl⟩ := candidate_eq_some.mp hx
    obtain ⟨_, _, _, rfl⟩ := candidate_eq_some.mp hy
    obtain rfl := Option.some.inj ha
    obtain rfl := Option.some.inj hb
    exact hpq
  refine ⟨p, usd, depth, ⟨hp, hquotes, fun q hq usd' depth' hquotes' => ?_⟩, rfl⟩
  have hcandidate : e.candidate token accepts rate source q = some _ :=
    candidate_eq_some.mpr ⟨usd', depth', hquotes', rfl⟩
  rcases hbest.before hprices (List.mem_filterMap.mpr ⟨q, hq, hcandidate⟩) with hlt | ⟨heq, hle⟩
  · exact Or.inl hlt
  · refine Or.inr ⟨heq, ?_⟩
    rcases hle with hsame | hle
    · exact (Option.some.inj (congrArg Price.sourcePair hsame)).ge
    · exact hle _ _ rfl rfl

theorem Deepest.unique (hnodup : (pools.map Pool.address).Nodup)
    (h : Deepest pools floor token accepts rate p usd depth)
    (h' : Deepest pools floor token accepts rate q usd' depth') :
    p = q ∧ usd = usd' ∧ depth = depth' := by
  have hpq : p.address = q.address := by
    rcases h.deepest q h'.mem _ _ h'.quotes with hlt | ⟨heq, hle⟩ <;>
      rcases h'.deepest p h.mem _ _ h.quotes with hlt' | ⟨heq', hle'⟩
    · exact (lt_asymm hlt hlt').elim
    · exact (hlt.ne heq'.symm).elim
    · exact (hlt'.ne heq.symm).elim
    · exact le_antisymm hle hle'
  obtain rfl := List.inj_on_of_nodup_map hnodup h.mem h'.mem hpq
  exact ⟨rfl, h.quotes.unique h'.quotes⟩

theorem deepest_eq_some (hsorted : e.pools.Pairwise fun p q => p.address ≤ q.address)
    (hnodup : (e.pools.map Pool.address).Nodup)
    (h : Deepest e.pools e.minLiquidityUSD token accepts rate p usd depth) :
    e.deepest token accepts rate source =
      some { usd := usd, source := source, sourcePair := some p.address,
             liquidityUSD := some depth } := by
  rcases hx : e.deepest token accepts rate source with _ | x
  · exact (deepest_eq_none.mp hx p h.mem usd depth h.quotes).elim
  · obtain ⟨q, usd', depth', h', rfl⟩ := deepest_deepest hsorted hx
    obtain ⟨rfl, rfl, rfl⟩ := h.unique hnodup h'
    rfl

theorem Deepest.congr (hpools : ∀ p, p ∈ pools ↔ p ∈ pools')
    (h : Deepest pools floor token accepts rate p usd depth) :
    Deepest pools' floor token accepts rate p usd depth :=
  ⟨(hpools p).mp h.mem, h.quotes, fun q hq => h.deepest q ((hpools q).mpr hq)⟩

theorem mem_tokensOf_congr (hpools : ∀ p, p ∈ pools ↔ p ∈ pools') :
    token ∈ tokensOf pools ↔ token ∈ tokensOf pools' := by
  simp only [tokensOf, List.mem_flatMap, hpools]

theorem OneWKASH.congr (hpools : ∀ p, p ∈ pools ↔ p ∈ pools') (h : OneWKASH pools) :
    OneWKASH pools' := by
  intro t ht u hu
  exact h t ((mem_tokensOf_congr hpools).mpr ht) u ((mem_tokensOf_congr hpools).mpr hu)

/-- A price is a matter of which pools there are, not of their order. -/
theorem PricedAt.congr {r : Option Price} (hpools : ∀ p, p ∈ pools ↔ p ∈ pools')
    (h : PricedAt pools floor token r) : PricedAt pools' floor token r := by
  cases h with
  | stable hstable => exact .stable hstable
  | direct hstable hdeep => exact .direct hstable (hdeep.congr hpools)
  | viaWKASH hstable hnone hw hflag hleg hdeep =>
    exact .viaWKASH hstable (fun p hp => hnone p ((hpools p).mpr hp))
      ((mem_tokensOf_congr hpools).mp hw) hflag (hleg.congr hpools) (hdeep.congr hpools)
  | unpriced hstable hnone hvia =>
    refine .unpriced hstable (fun p hp => hnone p ((hpools p).mpr hp)) ?_
    intro w hw hflag q rate depthW hleg p hp
    exact hvia w ((mem_tokensOf_congr hpools).mpr hw) hflag q rate depthW
      (hleg.congr fun p => (hpools p).symm) p ((hpools p).mpr hp)

theorem exists_of_wkashPrice (h : e.wkashPrice = some x) :
    ∃ w ∈ tokensOf e.pools, w.isWKASH = true ∧ e.directStable w = some x := by
  obtain ⟨p, hp, hside⟩ := List.exists_of_findSome?_eq_some h
  obtain ⟨w, hw, hx⟩ := List.exists_of_findSome?_eq_some hside
  split at hx
  · rename_i hflag
    exact ⟨w, List.mem_flatMap.mpr ⟨p, hp, hw⟩, hflag, hx⟩
  · cases hx

theorem wkashPrice_of_directStable (hone : OneWKASH e.pools) (hw : w ∈ tokensOf e.pools)
    (hflag : w.isWKASH = true) : e.wkashPrice = e.directStable w := by
  rcases hx : e.wkashPrice with _ | x
  · obtain ⟨p, hp, hside⟩ := List.mem_flatMap.mp hw
    have hnone := List.findSome?_eq_none_iff.mp (List.findSome?_eq_none_iff.mp hx p hp) w hside
    rw [if_pos hflag] at hnone
    exact hnone.symm
  · obtain ⟨w', hw', hflag', hx'⟩ := exists_of_wkashPrice hx
    rw [hone w hw w' hw' hflag hflag', hx']

/-- The route order: a stablecoin, a pool with a stablecoin, a pool with WKASH. -/
theorem priceUSD_pricedAt (hsorted : e.pools.Pairwise fun p q => p.address ≤ q.address)
    (hnodup : (e.pools.map Pool.address).Nodup) (hone : OneWKASH e.pools) :
    PricedAt e.pools e.minLiquidityUSD token (e.priceUSD token) := by
  unfold Engine.priceUSD
  split
  · rename_i hstable
    exact .stable hstable
  rename_i hstable
  have hstable' := Bool.eq_false_iff.mpr hstable
  rcases hdirect : e.directStable token with _ | x
  · have hnone := deepest_eq_none.mp hdirect
    dsimp only
    unfold Engine.viaWKASH
    rcases hwkash : e.wkashPrice with _ | y
    · refine .unpriced hstable' hnone fun w hw hflag q rate depthW hleg => ?_
      rw [wkashPrice_of_directStable hone hw hflag] at hwkash
      exact (deepest_eq_none.mp hwkash q hleg.mem rate depthW hleg.quotes).elim
    · obtain ⟨w, hw, hflag, hy⟩ := exists_of_wkashPrice hwkash
      obtain ⟨q, rate, depthW, hleg, rfl⟩ := deepest_deepest hsorted hy
      dsimp only
      rcases hvia : e.deepest token Token.isWKASH rate .viaWKASH with _ | x
      · refine .unpriced hstable' hnone fun w' hw' hflag' q' rate' depthW' hleg' => ?_
        obtain rfl := hone w hw w' hw' hflag hflag'
        obtain ⟨-, rfl, -⟩ := hleg.unique hnodup hleg'
        exact deepest_eq_none.mp hvia
      · obtain ⟨p, usd, depth, hdeep, rfl⟩ := deepest_deepest hsorted hvia
        exact .viaWKASH hstable' hnone hw hflag hleg hdeep
  · obtain ⟨p, usd, depth, hdeep, rfl⟩ := deepest_deepest hsorted hdirect
    exact .direct hstable' hdeep

theorem PricedAt.priceUSD_eq {r : Option Price}
    (hsorted : e.pools.Pairwise fun p q => p.address ≤ q.address)
    (hnodup : (e.pools.map Pool.address).Nodup) (hone : OneWKASH e.pools)
    (h : PricedAt e.pools e.minLiquidityUSD token r) : e.priceUSD token = r := by
  unfold Engine.priceUSD
  cases h with
  | stable hstable => exact if_pos hstable
  | direct hstable hdeep =>
    rw [if_neg (Bool.eq_false_iff.mp hstable), Engine.directStable,
      deepest_eq_some hsorted hnodup hdeep]
  | viaWKASH hstable hnone hw hflag hleg hdeep =>
    rw [if_neg (Bool.eq_false_iff.mp hstable), Engine.directStable, deepest_eq_none.mpr hnone]
    dsimp only
    rw [Engine.viaWKASH, wkashPrice_of_directStable hone hw hflag, Engine.directStable,
      deepest_eq_some hsorted hnodup hleg]
    exact deepest_eq_some hsorted hnodup hdeep
  | unpriced hstable hnone hvia =>
    rw [if_neg (Bool.eq_false_iff.mp hstable), Engine.directStable, deepest_eq_none.mpr hnone]
    dsimp only
    unfold Engine.viaWKASH
    rcases hwkash : e.wkashPrice with _ | y
    · rfl
    · obtain ⟨w, hw, hflag, hy⟩ := exists_of_wkashPrice hwkash
      obtain ⟨q, rate, depthW, hleg, rfl⟩ := deepest_deepest hsorted hy
      exact deepest_eq_none.mpr (hvia w hw hflag q rate depthW hleg)

theorem sortPoolsByAddress_pairwise (pools : List Pool) :
    (sortPoolsByAddress pools).Pairwise fun p q => p.address ≤ q.address := by
  have htotal : Std.Total fun p q : Pool => p.address ≤ q.address := ⟨fun p q => le_total _ _⟩
  have htrans : IsTrans Pool fun p q => p.address ≤ q.address := ⟨fun _ _ _ => le_trans⟩
  exact List.pairwise_insertionSort _ pools

theorem mem_sortPoolsByAddress : p ∈ sortPoolsByAddress pools ↔ p ∈ pools :=
  List.mem_insertionSort _

theorem PricedAt.floor_le (h : PricedAt pools floor token (some x)) :
    x.source = .stableAnchor ∨ ∃ depth, x.liquidityUSD = some depth ∧ floor ≤ depth := by
  cases h with
  | stable => exact Or.inl rfl
  | direct hstable hdeep => exact Or.inr ⟨_, rfl, hdeep.quotes.floor_le⟩
  | viaWKASH hstable hnone hw hflag hleg hdeep => exact Or.inr ⟨_, rfl, hdeep.quotes.floor_le⟩

theorem priceUSD_sorted_iff {r : Option Price} (hnodup : (pools.map Pool.address).Nodup)
    (hone : OneWKASH pools) :
    Engine.priceUSD ⟨sortPoolsByAddress pools, floor⟩ token = r ↔ PricedAt pools floor token r := by
  have hsame : ∀ p, p ∈ sortPoolsByAddress pools ↔ p ∈ pools := fun p => mem_sortPoolsByAddress
  have hnodup' : ((sortPoolsByAddress pools).map Pool.address).Nodup :=
    ((List.perm_insertionSort _ pools).map Pool.address).nodup_iff.mpr hnodup
  have hone' := hone.congr fun p => (hsame p).symm
  constructor
  · rintro rfl
    exact (priceUSD_pricedAt (e := ⟨sortPoolsByAddress pools, floor⟩)
      (sortPoolsByAddress_pairwise pools) hnodup' hone').congr hsame
  · intro h
    exact PricedAt.priceUSD_eq (e := ⟨sortPoolsByAddress pools, floor⟩)
      (sortPoolsByAddress_pairwise pools) hnodup' hone' (h.congr fun p => (hsame p).symm)

/-- The price of a token is the one that the pools give it by the route order,
at or above the floor, in whatever order the pools were collected. -/
theorem priceUSD_deepest (pools : List Pool) (hnodup : (pools.map Pool.address).Nodup)
    (hone : OneWKASH pools) (floor : ℚ) (token : Token) :
    (∀ r, Engine.priceUSD ⟨sortPoolsByAddress pools, floor⟩ token = r ↔
      PricedAt pools floor token r) ∧
    (∀ x, Engine.priceUSD ⟨sortPoolsByAddress pools, floor⟩ token = some x →
      x.source = .stableAnchor ∨ ∃ depth, x.liquidityUSD = some depth ∧ floor ≤ depth) ∧
    ∀ pools', List.Perm pools' pools →
      Engine.priceUSD ⟨sortPoolsByAddress pools', floor⟩ token =
        Engine.priceUSD ⟨sortPoolsByAddress pools, floor⟩ token := by
  refine ⟨fun r => priceUSD_sorted_iff hnodup hone, fun x hx => ?_, fun pools' hperm => ?_⟩
  · exact ((priceUSD_sorted_iff hnodup hone).mp hx).floor_le
  · have hsame : ∀ p, p ∈ pools' ↔ p ∈ pools := fun p => hperm.mem_iff
    refine (priceUSD_sorted_iff ((hperm.map _).nodup_iff.mpr hnodup)
      (hone.congr fun p => (hsame p).symm)).mpr ?_
    exact ((priceUSD_sorted_iff hnodup hone).mp rfl).congr fun p => (hsame p).symm

end Pools

def stablecoin : Token := { Token.zero with address := some 2, decimals := some 6, isStable := true }

def wrappedKash : Token := { Token.zero with address := some 1, decimals := some 18, isWKASH := true }

def listedToken : Token := { Token.zero with address := some 3, decimals := some 8 }

/-- A token priced through WKASH, which two equally deep pools price. -/
def twoLegs : List Pool :=
  [⟨9, wrappedKash, listedToken, 5 * 10 ^ 20, 2 * 10 ^ 8⟩,
    ⟨8, wrappedKash, stablecoin, 10 ^ 21, 3 * 10 ^ 9⟩,
    ⟨7, wrappedKash, stablecoin, 10 ^ 20, 3 * 10 ^ 9⟩]

theorem twoLegs_deepest : (twoLegs.map Pool.address).Nodup ∧ OneWKASH twoLegs ∧
    (∀ r, Engine.priceUSD ⟨sortPoolsByAddress twoLegs, 100⟩ listedToken = r ↔
      PricedAt twoLegs 100 listedToken r) ∧
    (∀ x, Engine.priceUSD ⟨sortPoolsByAddress twoLegs, 100⟩ listedToken = some x →
      x.source = .stableAnchor ∨ ∃ depth, x.liquidityUSD = some depth ∧ 100 ≤ depth) ∧
    ∀ pools', List.Perm pools' twoLegs →
      Engine.priceUSD ⟨sortPoolsByAddress pools', 100⟩ listedToken =
        Engine.priceUSD ⟨sortPoolsByAddress twoLegs, 100⟩ listedToken := by
  have hnodup : (twoLegs.map Pool.address).Nodup := by decide
  have hone : OneWKASH twoLegs := by
    unfold OneWKASH
    decide
  exact ⟨hnodup, hone, priceUSD_deepest twoLegs hnodup hone 100 listedToken⟩

example : Engine.priceUSD ⟨sortPoolsByAddress twoLegs, 100⟩ listedToken =
    some { usd := 7500, source := .viaWKASH, sourcePair := some 9, liquidityUSD := some 30000 } := by
  decide +kernel

end ArkSwap.GoInternal
