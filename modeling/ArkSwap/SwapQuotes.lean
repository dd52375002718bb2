import ArkSwap.SwapRoute
import ArkSwap.RouterQuote

/-! The quotes of the swap form are the router's amounts on the same reserves. -/

namespace ArkSwap

open Checked ArkSwapLibrary

namespace UseSwapRoute

variable {env : Env} {w : World} {pools : Pools} {hop : Hop} {hops : List Hop} {a b : Address}
variable {path : List Address} {p : ArkSwapPair} {rs : List (Nat × Nat)}

/-- A hop between two tokens whose pool has been read from the chain. -/
structure Live (env : Env) (w : World) (pools : Pools) (hop : Hop) (a b : Address)
    (p : ArkSwapPair) : Prop where
  tokenIn : Spells hop.tokenIn a
  tokenOut : Spells hop.tokenOut b
  distinct : a ≠ b
  nonzero : min a b ≠ 0
  pair : Spells hop.pair (pool env a b)
  chain : w.pair (pool env a b) = some p
  token0 : p.token0 = min a b
  live0 : 1 ≤ p.reserve0 ∧ p.reserve0 ≤ Uint.max112
  live1 : 1 ≤ p.reserve1 ∧ p.reserve1 ≤ Uint.max112
  read : ∃ t, Spells t p.token0 ∧
    pools (Sdk.toLowerCase hop.pair) = some ⟨t, p.reserve0, p.reserve1⟩

/-- The hops lead along the path, with their reserves as the path orients them. -/
inductive Follows (env : Env) (w : World) (pools : Pools) :
    List Hop → List Address → List (Nat × Nat) → Prop where
  | nil (a : Address) : Follows env w pools [] [a] []
  | cons {hop : Hop} {hops : List Hop} {a b : Address} {path : List Address} {p : ArkSwapPair}
      {rs : List (Nat × Nat)} (h : Live env w pools hop a b p)
      (hrest : Follows env w pools hops (b :: path) rs) :
      Follows env w pools (hop :: hops) (a :: b :: path) ((reserveOf p a, reserveOf p b) :: rs)

/-- The reserves along a path as the library reads them. -/
def readReserves (env : Env) (w : World) : List Address → Except String (List (Nat × Nat))
  | input :: output :: path => do
      let reserves ← getReserves env w input output
      return reserves :: (← readReserves env w (output :: path))
  | _ => .ok []

/-- The reserves of the hops as the form orients them. -/
def orientedAlong (pools : Pools) (hops : List Hop) : Except String (List (Int × Int)) :=
  hops.mapM fun hop => do return oriented (← poolOf pools hop) hop.tokenIn

/-- The amounts along a list of reserves, while there is something to trade. -/
def amountAlong : Nat → List (Nat × Nat) → Option Nat
  | x, [] => some x
  | x, (r, R) :: rs => if 0 < x then amountAlong (ConstantProduct.amountOut 1000 3 x r R) rs else none

/-- The amounts needed along a list of reserves, while they can be had. -/
def neededAlong : Nat → List (Nat × Nat) → Option Nat
  | y, [] => some y
  | y, (r, R) :: rs => (neededAlong y rs).bind fun z =>
      if 0 < z ∧ z < R then some (r * z * 1000 / ((R - z) * 997) + 1) else none

/-- A call that only the width of a word stopped. -/
def Overflowed {α : Type} (r : Except String α) : Prop :=
  r = .error "ds-math-mul-overflow" ∨ r = .error "ds-math-add-overflow"

section Reserves

theorem Live.getReserves (h : Live env w pools hop a b p) :
    getReserves env w a b = .ok (reserveOf p a, reserveOf p b) := by
  rw [← reserveOf_sorted h.distinct h.token0 rfl]
  simp only [ArkSwapLibrary.getReserves, bind_eq_ok, sortTokens_eq_ok, pairFor_eq_ok,
    World.storage_eq_ok, pure_eq_ok, Except.ok.injEq]
  exact ⟨_, ⟨h.distinct, h.nonzero, rfl⟩, _, ⟨h.distinct, h.nonzero, rfl⟩, p, h.chain, rfl⟩

theorem Live.oriented (h : Live env w pools hop a b p) : ∃ pool, poolOf pools hop = .ok pool ∧
    oriented pool hop.tokenIn = ((reserveOf p a : Int), (reserveOf p b : Int)) := by
  obtain ⟨t, ht, hread⟩ := h.read
  refine ⟨_, by rw [poolOf, hread], ?_⟩
  have hb : b = p.token0 ↔ a ≠ p.token0 := by
    rw [h.token0]
    have hne := h.distinct
    rcases min_choice a b with hm | hm <;> rw [hm] <;> simp [hne, hne.symm]
  have ha : Sdk.toLowerCase t = Sdk.toLowerCase hop.tokenIn ↔ a = p.token0 := by
    rw [ht.eq_iff h.tokenIn, eq_comm]
  simp only [UseSwapRoute.oriented, ha, reserveOf, hb]
  by_cases ha₀ : a = p.token0 <;> simp [ha₀]

theorem Live.bounds (h : Live env w pools hop a b p) :
    (0 < reserveOf p a ∧ reserveOf p a ≤ Uint.max112) ∧
      0 < reserveOf p b ∧ reserveOf p b ≤ Uint.max112 := by
  unfold reserveOf
  constructor <;> split <;> first | exact h.live0 | exact h.live1

theorem Follows.length (h : Follows env w pools hops path rs) : rs.length = hops.length := by
  induction h with
  | nil a => rfl
  | cons h hrest ih => rw [List.length_cons, List.length_cons, ih]

theorem Follows.reserves (h : Follows env w pools hops path rs) :
    readReserves env w path = .ok rs ∧
      orientedAlong pools hops = .ok (rs.map fun r => ((r.1 : Int), (r.2 : Int))) := by
  induction h with
  | nil a => exact ⟨rfl, rfl⟩
  | cons h hrest ih =>
    obtain ⟨pool, hpool, horiented⟩ := h.oriented
    obtain ⟨hread, hhops⟩ := ih
    rw [orientedAlong] at hhops
    constructor
    · rw [readReserves, h.getReserves, hread]
      rfl
    · rw [orientedAlong, List.mapM_cons, hpool, hhops]
      simp only [bind, Except.bind, horiented]
      rfl

end Reserves

section ExactIn

theorem sdk_getAmountOut {x r R : Nat} (hr : 0 < r) (hR : 0 < R) {y : Int} :
    Sdk.getAmountOut x r R = .ok y ↔ 0 < x ∧ y = (ConstantProduct.amountOut 1000 3 x r R : Nat) := by
  have hvalue : ((x : Int) * Sdk.FEE_NUMERATOR * R).tdiv
      (r * Sdk.FEE_DENOMINATOR + x * Sdk.FEE_NUMERATOR) =
        (ConstantProduct.amountOut 1000 3 x r R : Nat) := by
    rw [Sdk.FEE_NUMERATOR, Sdk.FEE_DENOMINATOR, ConstantProduct.amountOut,
      Int.tdiv_eq_ediv_of_nonneg (by positivity)]
    push_cast
    rfl
  simp only [Sdk.getAmountOut, bind_eq_ok, require_eq_ok, pure_eq_ok, Except.ok.injEq, hvalue]
  constructor
  · rintro ⟨-, hx, -, -, rfl⟩
    exact ⟨by omega, rfl⟩
  · rintro ⟨hx, rfl⟩
    exact ⟨(), by omega, (), by omega, rfl⟩

theorem mul_or (x y : Nat) :
    SafeMath.mul x y = .ok (x * y) ∨ SafeMath.mul x y = .error "ds-math-mul-overflow" := by
  unfold SafeMath.mul
  split
  · exact .inl rfl
  · exact .inr rfl

/-- The library's amount, unless a product or the sum is no word. -/
theorem getAmountOut_or {x r R : Nat} (hx : 0 < x) (hr : 0 < r) (hR : 0 < R) :
    getAmountOut x r R = .ok (ConstantProduct.amountOut 1000 3 x r R) ∨
      Overflowed (getAmountOut x r R) := by
  rw [getAmountOut, require_of hx, require_of ⟨hr, hR⟩]
  simp only [bind, Except.bind]
  rcases mul_or x 997 with hfee | hfee <;> rw [hfee]
  · simp only
    rcases mul_or (x * 997) R with hnum | hnum <;> rw [hnum]
    · simp only
      rcases mul_or r 1000 with hres | hres <;> rw [hres]
      · simp only [SafeMath.add]
        by_cases hden : r * 1000 + x * 997 < Uint.size
        · left
          rw [if_pos hden]
          exact Uint.div_eq_ok.mpr ⟨by omega, rfl⟩
        · rw [if_neg hden]
          exact .inr (.inr rfl)
      · exact .inr (.inl rfl)
    · exact .inr (.inl rfl)
  · exact .inr (.inl rfl)

theorem hopIn_eq (h : Live env w pools hop a b p) {x : Nat} {num den y num' den' : Int} :
    hopIn pools (x, num, den) hop = .ok (y, num', den') ↔
      0 < x ∧ y = (ConstantProduct.amountOut 1000 3 x (reserveOf p a) (reserveOf p b) : Nat) ∧
        num' = num * reserveOf p b ∧ den' = den * reserveOf p a := by
  obtain ⟨pool, hpool, horiented⟩ := h.oriented
  obtain ⟨⟨hr, -⟩, hR, -⟩ := h.bounds
  simp only [hopIn, hpool, bind_eq_ok, Except.ok.injEq, exists_eq_left', horiented, pure_eq_ok,
    Prod.mk.injEq, sdk_getAmountOut hr hR]
  constructor
  · rintro ⟨_, ⟨hx, rfl⟩, rfl, rfl, rfl⟩
    exact ⟨hx, rfl, rfl, rfl⟩
  · rintro ⟨hx, rfl, rfl, rfl⟩
    exact ⟨_, ⟨hx, rfl⟩, rfl, rfl, rfl⟩

theorem walkIn_iff (h : Follows env w pools hops path rs) {x : Nat} {num den y : Int} :
    (∃ num' den', hops.foldlM (hopIn pools) (x, num, den) = .ok (y, num', den')) ↔
      ∃ v : Nat, amountAlong x rs = some v ∧ y = v := by
  induction h generalizing x num den with
  | nil a =>
    constructor
    · rintro ⟨_, _, h⟩
      cases h
      exact ⟨x, rfl, rfl⟩
    · rintro ⟨v, h, rfl⟩
      obtain rfl := Option.some.inj h
      exact ⟨num, den, rfl⟩
  | @cons hop hops a b path p rs h hrest ih =>
    rw [amountAlong]
    constructor
    · rintro ⟨num', den', hwalk⟩
      rw [List.foldlM_cons, bind_eq_ok] at hwalk
      obtain ⟨⟨z, num₁, den₁⟩, hhop, hwalk⟩ := hwalk
      obtain ⟨hx, rfl, -⟩ := (hopIn_eq h).mp hhop
      rw [if_pos hx]
      exact ih.mp ⟨num', den', hwalk⟩
    · rintro ⟨v, hv, rfl⟩
      split at hv
      · rename_i hx
        have hwalk : ∃ num' den', hops.foldlM (hopIn pools)
            ((ConstantProduct.amountOut 1000 3 x (reserveOf p a) (reserveOf p b) : Nat),
              num * reserveOf p b, den * reserveOf p a) = .ok ((v : Int), num', den') :=
          ih.mpr ⟨v, hv, rfl⟩
        obtain ⟨num', den', hwalk⟩ := hwalk
        refine ⟨num', den', ?_⟩
        rw [List.foldlM_cons, (hopIn_eq h).mpr ⟨hx, rfl, rfl, rfl⟩]
        exact hwalk
      · cases hv

theorem quoteExactIn_iff (h : Follows env w pools hops path rs) {x v : Nat} (hv : 0 < v) :
    (∃ q, quoteExactIn hops pools x = .ok (some q) ∧ q.amountOut = v) ↔
      amountAlong x rs = some v := by
  constructor
  · rintro ⟨q, hq, hqv⟩
    rw [quoteExactIn, bind_eq_ok] at hq
    obtain ⟨⟨y, num, den⟩, hwalk, hq⟩ := hq
    obtain ⟨z, hz, rfl⟩ := (walkIn_iff h).mp ⟨num, den, hwalk⟩
    simp only at hq
    split at hq
    · cases hq
    · simp only [pure_eq_ok, Except.ok.injEq, Option.some.injEq] at hq
      subst hq
      rw [hz, Int.ofNat_inj.mp hqv]
  · intro hz
    have hwalk : ∃ num den, hops.foldlM (hopIn pools) ((x : Int), (x : Int), 1) =
        .ok ((v : Int), num, den) := (walkIn_iff h).mpr ⟨v, hz, rfl⟩
    obtain ⟨num, den, hwalk⟩ := hwalk
    have hquote : ∃ impactBps, quoteExactIn hops pools x = .ok (some ⟨x, v, impactBps⟩) := by
      simp only [quoteExactIn, hwalk, bind, Except.bind]
      rw [if_neg (by omega)]
      exact ⟨_, rfl⟩
    obtain ⟨impactBps, hquote⟩ := hquote
    exact ⟨_, hquote, rfl⟩

theorem amountsOut_along (h : Follows env w pools hops path rs) {x : Nat} {amounts : List Nat}
    (hx : amountsOut env w x path = .ok amounts) :
    ∃ v, amounts.getLast? = some v ∧ amountAlong x rs = some v := by
  induction h generalizing x amounts with
  | nil a =>
    obtain rfl := Except.ok.inj hx
    exact ⟨x, rfl, rfl⟩
  | @cons hop hops a b path p rs h hrest ih =>
    simp only [amountsOut, h.getReserves, bind_eq_ok, Except.ok.injEq, pure_eq_ok] at hx
    obtain ⟨_, rfl, y, hy, rest, hamounts, rfl⟩ := hx
    obtain ⟨hpos, -, -, rfl⟩ := getAmountOut_ok hy
    obtain ⟨v, hlast, hv⟩ := ih hamounts
    refine ⟨v, ?_, by rw [amountAlong, if_pos hpos, hv]⟩
    rw [List.getLast?_cons, hlast]
    rfl

theorem amountsOut_or (h : Follows env w pools hops path rs) {x v : Nat}
    (hv : amountAlong x rs = some v) :
    (∃ amounts, amountsOut env w x path = .ok amounts) ∨ Overflowed (amountsOut env w x path) := by
  induction h generalizing x with
  | nil a => exact .inl ⟨_, rfl⟩
  | @cons hop hops a b path p rs h hrest ih =>
    rw [amountAlong] at hv
    split at hv
    · rename_i hx
      obtain ⟨⟨hr, -⟩, hR, -⟩ := h.bounds
      simp only [amountsOut, h.getReserves, bind, Except.bind]
      rcases getAmountOut_or hx hr hR with hy | hy | hy
      · rw [hy]
        simp only
        rcases ih hv with ⟨amounts, hrest⟩ | hrest | hrest
        · exact .inl ⟨_, by rw [hrest]; rfl⟩
        · exact .inr (.inl (by rw [hrest]))
        · exact .inr (.inr (by rw [hrest]))
      · exact .inr (.inl (by rw [hy]))
      · exact .inr (.inr (by rw [hy]))
    · cases hv

theorem along_product {x v : Nat} (h : amountAlong x rs = some v) :
    v * 1000 ^ rs.length * (rs.map Prod.fst).prod ≤ x * 997 ^ rs.length * (rs.map Prod.snd).prod := by
  induction rs generalizing x with
  | nil =>
    obtain rfl := Option.some.inj h
    simp
  | cons r rs ih =>
    obtain ⟨r, R⟩ := r
    rw [amountAlong] at h
    split at h
    · have hrest := ih h
      have hhop := ConstantProduct.amountOut_mul_le 1000 3 x r R
      have hfee : ConstantProduct.amountOut 1000 3 x r R * 1000 * r ≤ x * 997 * R := by
        calc ConstantProduct.amountOut 1000 3 x r R * 1000 * r
            ≤ ConstantProduct.amountOut 1000 3 x r R * (r * 1000 + x * (1000 - 3)) := by
              rw [Nat.mul_assoc]
              exact Nat.mul_le_mul_left _ (by omega)
          _ ≤ x * 997 * R := hhop
      rw [List.map_cons, List.map_cons, List.prod_cons, List.prod_cons, List.length_cons]
      calc v * 1000 ^ (rs.length + 1) * (r * (rs.map Prod.fst).prod)
          = v * 1000 ^ rs.length * (rs.map Prod.fst).prod * (1000 * r) := by ring
        _ ≤ ConstantProduct.amountOut 1000 3 x r R * 997 ^ rs.length * (rs.map Prod.snd).prod *
            (1000 * r) := Nat.mul_le_mul_right _ hrest
        _ = ConstantProduct.amountOut 1000 3 x r R * 1000 * r *
            (997 ^ rs.length * (rs.map Prod.snd).prod) := by ring
        _ ≤ x * 997 * R * (997 ^ rs.length * (rs.map Prod.snd).prod) :=
            Nat.mul_le_mul_right _ hfee
        _ = x * 997 ^ (rs.length + 1) * (R * (rs.map Prod.snd).prod) := by ring
    · cases h

end ExactIn

section ExactOut

theorem sdk_getAmountIn {y r R : Nat} (hr : 0 < r) (hR : 0 < R) {x : Int} :
    Sdk.getAmountIn y r R = .ok x ↔
      (0 < y ∧ y < R) ∧ x = (r * y * 1000 / ((R - y) * 997) + 1 : Nat) := by
  simp only [Sdk.getAmountIn, bind_eq_ok, require_eq_ok, pure_eq_ok, Except.ok.injEq]
  have hvalue : y < R → ((r : Int) * y * Sdk.FEE_DENOMINATOR).tdiv
      ((R - y) * Sdk.FEE_NUMERATOR) + 1 = (r * y * 1000 / ((R - y) * 997) + 1 : Nat) := by
    intro hlt
    rw [Sdk.FEE_NUMERATOR, Sdk.FEE_DENOMINATOR, Int.tdiv_eq_ediv_of_nonneg (by positivity)]
    push_cast [Nat.cast_sub hlt.le]
    rfl
  constructor
  · rintro ⟨-, hy, -, -, -, hlt, rfl⟩
    exact ⟨by omega, hvalue (by omega)⟩
  · rintro ⟨⟨hy, hlt⟩, rfl⟩
    exact ⟨(), by omega, (), by omega, (), by omega, hvalue hlt⟩

/-- With reserves of 112 bits the library's amount never overflows. -/
theorem getAmountIn_iff {y r R x : Nat} (hr : 0 < r) (hR : 0 < R) (hr' : r ≤ Uint.max112)
    (hR' : R ≤ Uint.max112) :
    getAmountIn y r R = .ok x ↔ (0 < y ∧ y < R) ∧ x = r * y * 1000 / ((R - y) * 997) + 1 := by
  simp only [getAmountIn, bind_eq_ok, require_eq_ok, SafeMath.mul_eq_ok, SafeMath.sub_eq_ok,
    SafeMath.add_eq_ok, Uint.div_eq_ok]
  constructor
  · rintro ⟨-, hy, -, -, _, ⟨-, rfl⟩, _, ⟨-, rfl⟩, _, ⟨hle, rfl⟩, _, ⟨-, rfl⟩, _, ⟨hd, rfl⟩, -, rfl⟩
    exact ⟨⟨hy, by omega⟩, rfl⟩
  · rintro ⟨⟨hy, hlt⟩, rfl⟩
    have hprod : r * y * 1000 ≤ Uint.max112 * Uint.max112 * 1000 :=
      Nat.mul_le_mul_right _ (Nat.mul_le_mul hr' (hlt.le.trans hR'))
    have hden : (R - y) * 997 ≤ Uint.max112 * 997 :=
      Nat.mul_le_mul_right _ ((Nat.sub_le R y).trans hR')
    have hprod' : r * y * 1000 + 1 < Uint.size :=
      Nat.lt_of_le_of_lt (Nat.succ_le_succ hprod) (by norm_num [Uint.max112, Uint.size])
    have hden' : (R - y) * 997 < Uint.size :=
      Nat.lt_of_le_of_lt hden (by norm_num [Uint.max112, Uint.size])
    have hquot : r * y * 1000 / ((R - y) * 997) ≤ r * y * 1000 := Nat.div_le_self _ _
    have hsum : r * y * 1000 / ((R - y) * 997) + 1 < Uint.size :=
      Nat.lt_of_le_of_lt (Nat.succ_le_succ hquot) hprod'
    have hmul : r * y < Uint.size :=
      Nat.lt_of_le_of_lt (Nat.le_mul_of_pos_right _ (by norm_num)) (Nat.lt_of_succ_lt hprod')
    exact ⟨(), hy, (), ⟨hr, hR⟩, _, ⟨hmul, rfl⟩, _, ⟨Nat.lt_of_succ_lt hprod', rfl⟩, _,
      ⟨hlt.le, rfl⟩, _, ⟨hden', rfl⟩, _, ⟨Nat.mul_ne_zero (by omega) (by norm_num), rfl⟩, hsum, rfl⟩

theorem hopOut_eq (h : Live env w pools hop a b p) {y : Nat} {num den x num' den' : Int} :
    hopOut pools (y, num, den) hop = .ok (x, num', den') ↔
      (0 < y ∧ y < reserveOf p b) ∧
        x = (reserveOf p a * y * 1000 / ((reserveOf p b - y) * 997) + 1 : Nat) ∧
        num' = num * reserveOf p a ∧ den' = den * reserveOf p b := by
  obtain ⟨pool, hpool, horiented⟩ := h.oriented
  obtain ⟨⟨hr, -⟩, hR, -⟩ := h.bounds
  simp only [hopOut, hpool, bind_eq_ok, Except.ok.injEq, exists_eq_left', horiented, pure_eq_ok,
    Prod.mk.injEq, sdk_getAmountIn hr hR]
  constructor
  · rintro ⟨_, ⟨hy, rfl⟩, rfl, rfl, rfl⟩
    exact ⟨hy, rfl, rfl, rfl⟩
  · rintro ⟨hy, rfl, rfl, rfl⟩
    exact ⟨_, ⟨hy, rfl⟩, rfl, rfl, rfl⟩

theorem walkOut_iff (h : Follows env w pools hops path rs) {y : Nat} {num den x : Int} :
    (∃ num' den', hops.reverse.foldlM (hopOut pools) (y, num, den) = .ok (x, num', den')) ↔
      ∃ v : Nat, neededAlong y rs = some v ∧ x = v := by
  induction h generalizing x with
  | nil a =>
    constructor
    · rintro ⟨_, _, h⟩
      cases h
      exact ⟨y, rfl, rfl⟩
    · rintro ⟨v, h, rfl⟩
      obtain rfl := Option.some.inj h
      exact ⟨num, den, rfl⟩
  | @cons hop hops a b path p rs h hrest ih =>
    simp only [List.reverse_cons, List.foldlM_append, List.foldlM_cons, List.foldlM_nil,
      neededAlong, Option.bind_eq_some_iff]
    constructor
    · rintro ⟨num', den', hwalk⟩
      rw [bind_eq_ok] at hwalk
      obtain ⟨⟨z, num₁, den₁⟩, hwalk, hhop⟩ := hwalk
      obtain ⟨v, hv, rfl⟩ := ih.mp ⟨num₁, den₁, hwalk⟩
      simp only [bind_eq_ok, pure_eq_ok, Except.ok.injEq, exists_eq_right] at hhop
      obtain ⟨hlt, rfl, -⟩ := (hopOut_eq h).mp hhop
      exact ⟨_, ⟨v, hv, if_pos hlt⟩, rfl⟩
    · rintro ⟨_, ⟨v, hv, hx⟩, rfl⟩
      obtain ⟨num₁, den₁, hwalk⟩ := ih.mpr ⟨v, hv, rfl⟩
      split at hx
      · rename_i hlt
        obtain rfl := Option.some.inj hx
        refine ⟨num₁ * reserveOf p a, den₁ * reserveOf p b, ?_⟩
        rw [hwalk]
        simp only [bind_eq_ok, Except.ok.injEq, exists_eq_left', pure_eq_ok, exists_eq_right]
        exact (hopOut_eq h).mpr ⟨hlt, rfl, rfl, rfl⟩
      · cases hx

theorem neededAlong_pos (hne : rs ≠ []) {y v : Nat} (h : neededAlong y rs = some v) : 0 < v := by
  match rs with
  | [] => exact (hne rfl).elim
  | (r, R) :: rs =>
    rw [neededAlong, Option.bind_eq_some_iff] at h
    obtain ⟨z, -, hz⟩ := h
    split at hz
    · obtain rfl := Option.some.inj hz
      exact Nat.succ_pos _
    · cases hz

theorem quoteExactOut_iff (h : Follows env w pools hops path rs) (hne : hops ≠ []) {y v : Nat} :
    (∃ q, quoteExactOut hops pools y = .ok (some q) ∧ q.amountIn = v) ↔
      neededAlong y rs = some v := by
  have hrs : rs ≠ [] := by
    cases h with
    | nil => exact (hne rfl).elim
    | cons h hrest => exact List.cons_ne_nil _ _
  constructor
  · rintro ⟨q, hq, hqv⟩
    rw [quoteExactOut, bind_eq_ok] at hq
    obtain ⟨⟨x, num, den⟩, hwalk, hq⟩ := hq
    obtain ⟨z, hz, rfl⟩ := (walkOut_iff h).mp ⟨num, den, hwalk⟩
    simp only at hq
    split at hq
    · cases hq
    · simp only [pure_eq_ok, Except.ok.injEq, Option.some.injEq] at hq
      subst hq
      rw [hz, Int.ofNat_inj.mp hqv]
  · intro hz
    have hv := neededAlong_pos hrs hz
    have hwalk : ∃ num den, hops.reverse.foldlM (hopOut pools) ((y : Int), (y : Int), 1) =
        .ok ((v : Int), num, den) := (walkOut_iff h).mpr ⟨v, hz, rfl⟩
    obtain ⟨num, den, hwalk⟩ := hwalk
    have hquote : ∃ impactBps, quoteExactOut hops pools y = .ok (some ⟨v, y, impactBps⟩) := by
      simp only [quoteExactOut, hwalk, bind, Except.bind]
      rw [if_neg (by omega)]
      exact ⟨_, rfl⟩
    obtain ⟨impactBps, hquote⟩ := hquote
    exact ⟨_, hquote, rfl⟩

theorem amountsIn_iff (h : Follows env w pools hops path rs) {y v : Nat} :
    (∃ amounts, amountsIn env w y path = .ok (v, amounts)) ↔ neededAlong y rs = some v := by
  induction h generalizing v with
  | nil a => simp [amountsIn, neededAlong]
  | @cons hop hops a b path p rs h hrest ih =>
    obtain ⟨⟨hr, hr'⟩, hR, hR'⟩ := h.bounds
    simp only [amountsIn, h.getReserves, bind_eq_ok, Except.ok.injEq, exists_eq_left', pure_eq_ok,
      Prod.mk.injEq, getAmountIn_iff hr hR hr' hR', neededAlong, Option.bind_eq_some_iff]
    constructor
    · rintro ⟨_, ⟨z, rest⟩, hz, _, ⟨hlt, rfl⟩, rfl, rfl⟩
      exact ⟨z, ih.mp ⟨rest, hz⟩, if_pos hlt⟩
    · rintro ⟨z, hz, hv⟩
      obtain ⟨rest, hrest⟩ := ih.mpr hz
      split at hv
      · rename_i hlt
        obtain rfl := Option.some.inj hv
        exact ⟨_, ⟨z, rest⟩, hrest, _, ⟨hlt, rfl⟩, rfl, rfl⟩
      · cases hv

end ExactOut

section Agreement

theorem getAmountsOut_eq (h : Follows env w pools hops path rs) (hne : hops ≠ []) (x : Nat) :
    ArkSwapRouter.getAmountsOut env w x path = amountsOut env w x path := by
  have hlength : path.length ≥ 2 := by
    cases h with
    | nil => exact (hne rfl).elim
    | cons => simp
  rw [ArkSwapRouter.getAmountsOut, getAmountsOut, require_of hlength]
  rfl

theorem getAmountsIn_iff (h : Follows env w pools hops path rs) (hne : hops ≠ []) {y v : Nat} :
    (∃ amounts, ArkSwapRouter.getAmountsIn env w y path = .ok amounts ∧ amounts.head? = some v) ↔
      neededAlong y rs = some v := by
  have hlength : path.length ≥ 2 := by
    cases h with
    | nil => exact (hne rfl).elim
    | cons => simp
  rw [← amountsIn_iff h]
  simp only [ArkSwapRouter.getAmountsIn, getAmountsIn, bind_eq_ok, require_eq_ok, pure_eq_ok,
    Except.ok.injEq]
  constructor
  · rintro ⟨_, ⟨-, -, ⟨z, rest⟩, hz, rfl⟩, hhead⟩
    obtain rfl := Option.some.inj hhead
    exact ⟨rest, hz⟩
  · rintro ⟨rest, hz⟩
    exact ⟨_, ⟨(), hlength, (v, rest), hz, rfl⟩, rfl⟩

/-- Along a path of at least one hop the form shows what the router computes. -/
theorem quotes_agree (h : Follows env w pools hops path rs) (hne : hops ≠ []) :
    (∀ x v : Nat, 0 < v →
      ((∃ amounts, ArkSwapRouter.getAmountsOut env w x path = .ok amounts ∧
          amounts.getLast? = some v) →
        ∃ q, quoteExactIn hops pools x = .ok (some q) ∧ q.amountOut = v) ∧
      ((∃ q, quoteExactIn hops pools x = .ok (some q) ∧ q.amountOut = v) →
        (∃ amounts, ArkSwapRouter.getAmountsOut env w x path = .ok amounts ∧
          amounts.getLast? = some v) ∨
        Overflowed (ArkSwapRouter.getAmountsOut env w x path))) ∧
    (∀ y v : Nat, (∃ q, quoteExactOut hops pools y = .ok (some q) ∧ q.amountIn = v) ↔
      ∃ amounts, ArkSwapRouter.getAmountsIn env w y path = .ok amounts ∧
        amounts.head? = some v) ∧
    (readReserves env w path = .ok rs ∧
      orientedAlong pools hops = .ok (rs.map fun r => ((r.1 : Int), (r.2 : Int)))) ∧
    ∀ x v : Nat,
      ((∃ q, quoteExactIn hops pools x = .ok (some q) ∧ q.amountOut = v) ∧ 0 < v ∨
        ∃ amounts, ArkSwapRouter.getAmountsOut env w x path = .ok amounts ∧
          amounts.getLast? = some v) →
      v * 1000 ^ hops.length * (rs.map Prod.fst).prod ≤
        x * 997 ^ hops.length * (rs.map Prod.snd).prod := by
  have hlast : ∀ {x v : Nat} {amounts : List Nat},
      ArkSwapRouter.getAmountsOut env w x path = .ok amounts → amounts.getLast? = some v →
        amountAlong x rs = some v := by
    intro x v amounts hx hv
    rw [getAmountsOut_eq h hne] at hx
    obtain ⟨z, hz, halong⟩ := amountsOut_along h hx
    rw [halong, ← hz, hv]
  refine ⟨fun x v hv => ⟨?_, fun hq => ?_⟩, fun y v => ?_, h.reserves, fun x v hv => ?_⟩
  · rintro ⟨amounts, hx, hv'⟩
    exact (quoteExactIn_iff h hv).mpr (hlast hx hv')
  · have halong := (quoteExactIn_iff h hv).mp hq
    rw [getAmountsOut_eq h hne]
    rcases amountsOut_or h halong with ⟨amounts, hx⟩ | hover
    · obtain ⟨z, hz, hz'⟩ := amountsOut_along h hx
      rw [halong] at hz'
      exact .inl ⟨amounts, hx, hz.trans hz'.symm⟩
    · exact .inr hover
  · rw [quoteExactOut_iff h hne, getAmountsIn_iff h hne]
  · rw [← h.length]
    rcases hv with ⟨hq, hv⟩ | ⟨amounts, hx, hv⟩
    · exact along_product ((quoteExactIn_iff h hv).mp hq)
    · exact along_product (hlast hx hv)

/-- The pool of tokens 4 and 5 with a thousand and four thousand units. -/
def quotedPair : ArkSwapPair := { ArkSwapPair.initial 4 5 with reserve0 := 1000, reserve1 := 4000 }

def quotedWorld : World :=
  { freshWorld with pair := Function.update freshWorld.pair (pool codedEnv 4 5) (some quotedPair) }

def quotedPools : Pools := fun t =>
  if t = hexText 40 (pool codedEnv 4 5).val then some ⟨hexText 40 4, 1000, 4000⟩ else none

def quotedHop : Hop := ⟨hexText 40 (pool codedEnv 4 5).val, hexText 40 4, hexText 40 5⟩

theorem quoted_live : Live codedEnv quotedWorld quotedPools quotedHop 4 5 quotedPair where
  tokenIn := spells_hexText 4
  tokenOut := spells_hexText 5
  distinct := by decide
  nonzero := by decide
  pair := spells_hexText _
  chain := by simp only [quotedWorld, Function.update_self]
  token0 := by decide
  live0 := by decide
  live1 := by decide
  read := by
    refine ⟨hexText 40 4, spells_hexText 4, ?_⟩
    rw [quotedHop, (spells_hexText (pool codedEnv 4 5)).toLowerCase]
    exact if_pos rfl

theorem quoted_follows : Follows codedEnv quotedWorld quotedPools [quotedHop] [4, 5]
    [(1000, 4000)] := by
  have h₀ : reserveOf quotedPair 4 = 1000 := by decide
  have h₁ : reserveOf quotedPair 5 = 4000 := by decide
  have h := Follows.cons quoted_live (.nil 5)
  rwa [h₀, h₁] at h

theorem quoted_agree :
    (∃ q, quoteExactIn [quotedHop] quotedPools 100 = .ok (some q) ∧ q.amountOut = 362) ∧
      ∃ amounts, ArkSwapRouter.getAmountsOut codedEnv quotedWorld 100 [4, 5] = .ok amounts ∧
        amounts.getLast? = some 362 := by
  have hout : ArkSwapRouter.getAmountsOut codedEnv quotedWorld 100 [4, 5] = .ok [100, 362] := by
    decide +kernel
  have hquote := ((quotes_agree quoted_follows (List.cons_ne_nil _ _)).1 100 362 (by decide)).1
    ⟨_, hout, rfl⟩
  exact ⟨hquote, _, hout, rfl⟩

/-- Without a hop the form returns the input, where the router refuses the path. -/
theorem quotes_differ : Follows codedEnv quotedWorld quotedPools [] [4] [] ∧
    (∃ q, quoteExactIn [] quotedPools 5 = .ok (some q) ∧ q.amountOut = 5) ∧
    ArkSwapRouter.getAmountsOut codedEnv quotedWorld 5 [4] =
      .error "ArkSwapLibrary: INVALID_PATH" :=
  ⟨.nil 4, ⟨_, rfl, rfl⟩, rfl⟩

end Agreement

end UseSwapRoute

end ArkSwap
