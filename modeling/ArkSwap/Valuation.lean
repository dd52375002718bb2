import ArkSwap.Lib.Best
import ArkSwap.Sdk
import Mathlib.Data.Nat.ModEq

/-! What tokens, pools and positions are worth in a stable: through which pool a token is
priced, and for which tokens an amount of zero has a worth that no other amount has. -/

namespace ArkSwap.Web.Valuation

def stableDecimals : Nat := 6

structure PoolToken where
  address : Text
  decimals : Nat
  isStable : Bool
  deriving DecidableEq

structure PricedPool where
  token0 : PoolToken
  token1 : PoolToken
  reserve0 : Nat
  reserve1 : Nat
  deriving DecidableEq

def rescale (raw fromDecimals toDecimals : Nat) : Nat :=
  if fromDecimals = toDecimals then raw
  else if toDecimals < fromDecimals then raw / 10 ^ (fromDecimals - toDecimals)
  else raw * 10 ^ (toDecimals - fromDecimals)

/-- A pool as it is seen from one of its tokens. -/
structure Side where
  other : PoolToken
  reserveToken : Nat
  reserveOther : Nat
  deriving DecidableEq

def sideOf (p : PricedPool) (token : Text) : Option Side :=
  if Sdk.toLowerCase p.token0.address = Sdk.toLowerCase token then
    some { other := p.token1, reserveToken := p.reserve0, reserveOther := p.reserve1 }
  else if Sdk.toLowerCase p.token1.address = Sdk.toLowerCase token then
    some { other := p.token0, reserveToken := p.reserve1, reserveOther := p.reserve0 }
  else none

/-- One pool of the loop, which carries the value so far and what its pool's other side is
worth. -/
def consider (token : PoolToken) (amount : Nat) (worth : Side → Option Nat)
    (s : Option Nat × Nat) (p : PricedPool) : Option Nat × Nat :=
  match sideOf p token.address with
  | none => s
  | some side =>
      if side.reserveToken = 0 ∨ side.reserveOther = 0 then s
      else
        match worth side with
        | none => s
        | some otherValue =>
            if s.1 = none ∨ s.2 < otherValue then
              (some (amount * otherValue / side.reserveToken), otherValue)
            else s

def valueInStable (pools : List PricedPool) (token : PoolToken) (amount depth : Nat) : Option Nat :=
  if amount = 0 then some 0
  else if token.isStable then some (rescale amount token.decimals stableDecimals)
  else if 1 < depth then none
  else (pools.foldl (consider token amount fun side =>
    valueInStable pools side.other side.reserveOther (depth + 1)) (none, 0)).1
termination_by 2 - depth

/-- Two sides that are priced are summed, one is doubled. -/
def total (v0 v1 : Option Nat) : Option Nat :=
  match v0, v1 with
  | some a, some b => some (a + b)
  | some a, none => some (a * 2)
  | none, some b => some (b * 2)
  | none, none => none

def poolTvl (pools : List PricedPool) (p : PricedPool) : Option Nat :=
  total (valueInStable pools p.token0 p.reserve0 0) (valueInStable pools p.token1 p.reserve1 0)

/-- The value of a position of `usePositions`, at the amounts its shares redeem for. -/
def positionValue (pools : List PricedPool) (p : PricedPool) (lp totalSupply : Nat) : Option Nat :=
  total (valueInStable pools p.token0 (lp * p.reserve0 / totalSupply) 0)
    (valueInStable pools p.token1 (lp * p.reserve1 / totalSupply) 0)

variable {pools : List PricedPool} {token : PoolToken} {p : PricedPool} {side : Side}
  {worth : Side → Option Nat} {amount depth a b x y z : Nat}

/-- A pool that holds some of both its tokens, seen from one of them. -/
def Trades (p : PricedPool) (token : PoolToken) (side : Side) : Prop :=
  sideOf p token.address = some side ∧ side.reserveToken ≠ 0 ∧ side.reserveOther ≠ 0

/-- What a pool offers for a token: its side, and what the other side is worth. -/
structure Offer where
  side : Side
  worth : Nat

namespace Offer

variable {o : Offer}

def value (o : Offer) (amount : Nat) : Nat := amount * o.worth / o.side.reserveToken

theorem value_mono (h : a ≤ b) : o.value a ≤ o.value b :=
  Nat.div_le_div_right (Nat.mul_le_mul_right _ h)

theorem value_add_le : o.value a + o.value b ≤ o.value (a + b) := by
  rw [value, value, value, Nat.add_mul]
  exact Nat.div_add_div_le_add_div

theorem value_add_le_succ : o.value (a + b) ≤ o.value a + o.value b + 1 := by
  rw [value, value, value, Nat.add_mul]
  exact Nat.add_div_le_div_add_div_add_one _ _ _

end Offer

def offer (token : PoolToken) (worth : Side → Option Nat) (p : PricedPool) : Option Offer :=
  match sideOf p token.address with
  | none => none
  | some side =>
      if side.reserveToken = 0 ∨ side.reserveOther = 0 then none else (worth side).map (Offer.mk side)

/-- The offer that a token is valued by, which no amount is part of. -/
def bestOffer (pools : List PricedPool) (token : PoolToken) (worth : Side → Option Nat) :
    Option Offer :=
  Best.pick Offer.worth (pools.filterMap (offer token worth))

theorem offer_eq_some {o : Offer} :
    offer token worth p = some o ↔ Trades p token o.side ∧ worth o.side = some o.worth := by
  obtain ⟨side, w⟩ := o
  rw [offer, Trades]
  rcases hside : sideOf p token.address with _ | s
  · simp
  · by_cases hzero : s.reserveToken = 0 ∨ s.reserveOther = 0
    · simp only [hzero, if_true, Option.some.injEq]
      constructor
      · intro h
        cases h
      · rintro ⟨⟨rfl, htoken, hother⟩, -⟩
        exact (hzero.elim htoken hother).elim
    · simp only [hzero, if_false, Option.map_eq_some_iff, Offer.mk.injEq, Option.some.injEq]
      constructor
      · rintro ⟨w, hw, rfl, rfl⟩
        exact ⟨⟨rfl, fun h => hzero (.inl h), fun h => hzero (.inr h)⟩, hw⟩
      · rintro ⟨⟨rfl, -⟩, hw⟩
        exact ⟨w, hw, rfl, rfl⟩

/-- What the loop carries for the best offer so far. -/
def carried (amount : Nat) (best : Option Offer) : Option Nat × Nat :=
  (best.map fun o => o.value amount, (best.map Offer.worth).getD 0)

theorem consider_carried (best : Option Offer) :
    consider token amount worth (carried amount best) p =
      carried amount ((offer token worth p).elim best (Best.step Offer.worth best)) := by
  rw [consider, offer]
  rcases sideOf p token.address with _ | s
  · rfl
  · by_cases hzero : s.reserveToken = 0 ∨ s.reserveOther = 0
    · simp only [hzero, if_true, Option.elim_none]
    · simp only [hzero, if_false]
      rcases worth s with _ | w
      · rfl
      · rcases best with _ | o
        · rfl
        · by_cases hlt : o.worth < w <;> simp [carried, Best.step, Offer.value, hlt]

theorem foldl_consider (best : Option Offer) :
    pools.foldl (consider token amount worth) (carried amount best) =
      carried amount ((pools.filterMap (offer token worth)).foldl (Best.step Offer.worth) best) := by
  induction pools generalizing best with
  | nil => rfl
  | cons p pools ih =>
    rw [List.foldl_cons, consider_carried, ih, List.filterMap_cons]
    cases offer token worth p <;> rfl

@[simp] theorem valueInStable_zero : valueInStable pools token 0 depth = some 0 := by
  rw [valueInStable, if_pos rfl]

theorem valueInStable_of_isStable (ha : amount ≠ 0) (hs : token.isStable = true) :
    valueInStable pools token amount depth = some (rescale amount token.decimals stableDecimals) := by
  rw [valueInStable, if_neg ha, if_pos hs]

theorem valueInStable_of_lt (ha : amount ≠ 0) (hs : token.isStable = false) (hd : 1 < depth) :
    valueInStable pools token amount depth = none := by
  rw [valueInStable, if_neg ha, hs, if_neg Bool.false_ne_true, if_pos hd]

/-- What the pools of a token are compared by. -/
def sideValue (pools : List PricedPool) (depth : Nat) (side : Side) : Option Nat :=
  valueInStable pools side.other side.reserveOther (depth + 1)

theorem valueInStable_eq_best (ha : amount ≠ 0) (hs : token.isStable = false) (hd : depth ≤ 1) :
    valueInStable pools token amount depth =
      (bestOffer pools token (sideValue pools depth)).map fun o => o.value amount := by
  rw [valueInStable, if_neg ha, hs, if_neg Bool.false_ne_true, if_neg (Nat.not_lt_of_le hd)]
  exact congrArg Prod.fst (foldl_consider none)

/-- A stable is at most a number of pools away. -/
def Reaches (pools : List PricedPool) : Nat → PoolToken → Prop
  | 0, token => token.isStable = true
  | n + 1, token => token.isStable = true ∨
      ∃ p ∈ pools, ∃ side, Trades p token side ∧ Reaches pools n side.other

theorem sideOf_other (h : sideOf p token.address = some side) :
    side.other = p.token0 ∨ side.other = p.token1 := by
  rw [sideOf] at h
  split at h
  · cases h
    exact .inr rfl
  · split at h
    · cases h
      exact .inl rfl
    · cases h

theorem Reaches.stable {n : Nat} (h : Reaches pools n token) : token.isStable = true ∨
    ∃ p ∈ pools, p.token0.isStable = true ∨ p.token1.isStable = true := by
  induction n generalizing token with
  | zero => exact .inl h
  | succ n ih =>
    rcases h with hs | ⟨p, hp, side, htrades, hother⟩
    · exact .inl hs
    · refine .inr ?_
      rcases ih hother with hs | hpool
      · rcases sideOf_other htrades.1 with heq | heq
        · exact ⟨p, hp, .inl (heq ▸ hs)⟩
        · exact ⟨p, hp, .inr (heq ▸ hs)⟩
      · exact hpool

theorem bestOffer_isSome_iff : (bestOffer pools token worth).isSome = true ↔
    ∃ p ∈ pools, ∃ side, Trades p token side ∧ (worth side).isSome = true := by
  constructor
  · intro h
    obtain ⟨o, ho⟩ := Option.isSome_iff_exists.mp h
    obtain ⟨p, hp, hoffer⟩ := List.mem_filterMap.mp (Best.pick_isFirstBest ho).mem
    obtain ⟨htrades, hworth⟩ := offer_eq_some.mp hoffer
    exact ⟨p, hp, o.side, htrades, by rw [hworth, Option.isSome_some]⟩
  · rintro ⟨p, hp, side, htrades, hworth⟩
    obtain ⟨w, hw⟩ := Option.isSome_iff_exists.mp hworth
    have hmem : Offer.mk side w ∈ pools.filterMap (offer token worth) :=
      List.mem_filterMap.mpr ⟨p, hp, offer_eq_some.mpr ⟨htrades, hw⟩⟩
    obtain ⟨o, ho⟩ := Best.exists_pick Offer.worth hmem
    rw [bestOffer, ho, Option.isSome_some]

/-- Any other amount than zero has a value when a stable is near enough. -/
theorem valueInStable_isSome_iff {n : Nat} (ha : amount ≠ 0) (hd : depth + n = 2) :
    (valueInStable pools token amount depth).isSome = true ↔ Reaches pools n token := by
  induction n generalizing token amount depth with
  | zero =>
    rw [Reaches]
    rcases hs : token.isStable with _ | _
    · rw [valueInStable_of_lt ha hs (by omega)]
      simp
    · rw [valueInStable_of_isStable ha hs]
      simp
  | succ n ih =>
    rw [Reaches]
    rcases hs : token.isStable with _ | _
    · rw [valueInStable_eq_best ha hs (by omega), Option.isSome_map, bestOffer_isSome_iff]
      simp only [Bool.false_eq_true, false_or]
      have hother : ∀ p side, Trades p token side →
          ((sideValue pools depth side).isSome = true ↔ Reaches pools n side.other) :=
        fun p side h => ih h.2.2 (by omega)
      constructor
      · rintro ⟨p, hp, side, htrades, hworth⟩
        exact ⟨p, hp, side, htrades, (hother p side htrades).mp hworth⟩
      · rintro ⟨p, hp, side, htrades, hreaches⟩
        exact ⟨p, hp, side, htrades, (hother p side htrades).mpr hreaches⟩
    · rw [valueInStable_of_isStable ha hs]
      simp

theorem isSome_iff : (valueInStable pools token amount 0).isSome = true ↔
    amount = 0 ∨ Reaches pools 2 token := by
  by_cases ha : amount = 0
  · simp [ha]
  · rw [valueInStable_isSome_iff ha (Nat.zero_add 2)]
    simp [ha]

theorem rescale_mono {fromDecimals toDecimals : Nat} (h : a ≤ b) :
    rescale a fromDecimals toDecimals ≤ rescale b fromDecimals toDecimals := by
  rw [rescale, rescale]
  split
  · exact h
  · split
    · exact Nat.div_le_div_right h
    · exact Nat.mul_le_mul_right _ h

/-- The offer of a pool that a token is priced through, whatever the amount: no other pool
of the token has a side worth more, and it leads to a stable by one pool more at most. -/
structure PricedThrough (pools : List PricedPool) (token : PoolToken) (o : Offer) : Prop where
  pool : ∃ p ∈ pools, Trades p token o.side
  worth : sideValue pools 0 o.side = some o.worth
  deepest : ∀ p ∈ pools, ∀ side w, Trades p token side → sideValue pools 0 side = some w →
    w ≤ o.worth
  near : Reaches pools 1 o.side.other
  value : ∀ a, 0 < a → valueInStable pools token a 0 = some (o.value a)

theorem pricedThrough_of_best {o : Offer} (hs : token.isStable = false)
    (h : bestOffer pools token (sideValue pools 0) = some o) : PricedThrough pools token o := by
  have hbest := Best.pick_isFirstBest h
  obtain ⟨p, hp, hoffer⟩ := List.mem_filterMap.mp hbest.mem
  obtain ⟨htrades, hworth⟩ := offer_eq_some.mp hoffer
  refine ⟨⟨p, hp, htrades⟩, hworth, fun q hq side w hside hw => ?_, ?_, fun a ha => ?_⟩
  · have hmem : Offer.mk side w ∈ pools.filterMap (offer token (sideValue pools 0)) :=
      List.mem_filterMap.mpr ⟨q, hq, offer_eq_some.mpr ⟨hside, hw⟩⟩
    exact hbest.le hmem
  · have hvalued : (sideValue pools 0 o.side).isSome = true := by rw [hworth, Option.isSome_some]
    exact (valueInStable_isSome_iff htrades.2.2 rfl).mp hvalued
  · rw [valueInStable_eq_best (Nat.pos_iff_ne_zero.mp ha) hs (Nat.zero_le 1), h, Option.map_some]

theorem exists_pricedThrough (hs : token.isStable = false) (ha : 0 < a)
    (h : valueInStable pools token a 0 = some x) : ∃ o, PricedThrough pools token o := by
  rw [valueInStable_eq_best (Nat.pos_iff_ne_zero.mp ha) hs (Nat.zero_le 1),
    Option.map_eq_some_iff] at h
  obtain ⟨o, ho, -⟩ := h
  exact ⟨o, pricedThrough_of_best hs ho⟩

/-- The value of a token does not depend on the amount but for its size: it is there for all
amounts or for none, and comes from one pool at that pool's mid price. -/
structure Uniform (pools : List PricedPool) (token : PoolToken) : Prop where
  defined : ∀ a b, (valueInStable pools token a 0).isSome = (valueInStable pools token b 0).isSome
  monotone : ∀ a b x y, 0 < a → a ≤ b → valueInStable pools token a 0 = some x →
    valueInStable pools token b 0 = some y → x ≤ y
  additive : token.isStable = false → ∀ a b x y z, 0 < a → 0 < b →
    valueInStable pools token a 0 = some x → valueInStable pools token b 0 = some y →
    valueInStable pools token (a + b) 0 = some z → x + y ≤ z ∧ z ≤ x + y + 1
  pool : token.isStable = false → ∀ a x, 0 < a → valueInStable pools token a 0 = some x →
    ∃ o, PricedThrough pools token o

theorem monotone (ha : 0 < a) (hle : a ≤ b) (hx : valueInStable pools token a 0 = some x)
    (hy : valueInStable pools token b 0 = some y) : x ≤ y := by
  have hb : 0 < b := by omega
  rcases hs : token.isStable with _ | _
  · obtain ⟨o, ho⟩ := exists_pricedThrough hs ha hx
    obtain rfl := Option.some.inj ((ho.value a ha).symm.trans hx)
    obtain rfl := Option.some.inj ((ho.value b hb).symm.trans hy)
    exact Offer.value_mono hle
  · rw [valueInStable_of_isStable (Nat.pos_iff_ne_zero.mp ha) hs] at hx
    rw [valueInStable_of_isStable (Nat.pos_iff_ne_zero.mp hb) hs] at hy
    obtain rfl := Option.some.inj hx
    obtain rfl := Option.some.inj hy
    exact rescale_mono hle

theorem additive (hs : token.isStable = false) (ha : 0 < a) (hb : 0 < b)
    (hx : valueInStable pools token a 0 = some x) (hy : valueInStable pools token b 0 = some y)
    (hz : valueInStable pools token (a + b) 0 = some z) : x + y ≤ z ∧ z ≤ x + y + 1 := by
  obtain ⟨o, ho⟩ := exists_pricedThrough hs ha hx
  obtain rfl := Option.some.inj ((ho.value a ha).symm.trans hx)
  obtain rfl := Option.some.inj ((ho.value b hb).symm.trans hy)
  obtain rfl := Option.some.inj ((ho.value (a + b) (Nat.add_pos_left ha b)).symm.trans hz)
  exact ⟨Offer.value_add_le, Offer.value_add_le_succ⟩

theorem uniform_iff (pools : List PricedPool) (token : PoolToken) :
    Uniform pools token ↔ Reaches pools 2 token := by
  constructor
  · intro h
    have hone : (valueInStable pools token 1 0).isSome = true := by
      rw [h.defined 1 0, valueInStable_zero, Option.isSome_some]
    exact (valueInStable_isSome_iff Nat.one_ne_zero (Nat.zero_add 2)).mp hone
  · intro h
    have hsome : ∀ a, (valueInStable pools token a 0).isSome = true :=
      fun a => isSome_iff.mpr (.inr h)
    constructor
    · intro a b
      rw [hsome a, hsome b]
    · exact fun a b x y => monotone
    · exact fun hs a b x y z => additive hs
    · exact fun hs a x => exists_pricedThrough hs

section Unpriced

def minnow : PoolToken := { address := ['0', 'x', 'a'], decimals := 18, isStable := false }

def guppy : PoolToken := { address := ['0', 'x', 'b'], decimals := 18, isStable := false }

def pond : List PricedPool := [{ token0 := minnow, token1 := guppy, reserve0 := 1000, reserve1 := 500 }]

/-- Neither token of the only pool is a stable, yet none of the token is worth zero. -/
theorem minnow_not_uniform : ¬Uniform pond minnow := by
  intro h
  have hone : (valueInStable pond minnow 1 0).isSome = true := by
    rw [h.defined 1 0, valueInStable_zero, Option.isSome_some]
  rcases ((valueInStable_isSome_iff Nat.one_ne_zero (Nat.zero_add 2)).mp hone).stable with hs | ⟨p, hp, hs⟩
  · cases hs
  · obtain rfl := List.mem_singleton.mp hp
    rcases hs with hs | hs <;> cases hs

end Unpriced

/-- A position that redeems for none of an unpriced token is worth its other side once, and
twice that as soon as it redeems for some. -/
theorem positionValue_of_unpriced {lp totalSupply : Nat} (h : ¬Reaches pools 2 p.token0)
    (hv : valueInStable pools p.token1 (lp * p.reserve1 / totalSupply) 0 = some y) :
    positionValue pools p lp totalSupply =
      if lp * p.reserve0 / totalSupply = 0 then some y else some (y * 2) := by
  rw [positionValue, hv]
  split
  · rename_i hzero
    rw [hzero, valueInStable_zero, total, Nat.zero_add]
  · rename_i hsome
    have hnone : valueInStable pools p.token0 (lp * p.reserve0 / totalSupply) 0 = none := by
      rw [← Option.not_isSome_iff_eq_none, isSome_iff]
      exact fun hor => hor.elim hsome h
    rw [hnone, total]

end ArkSwap.Web.Valuation
