import ArkSwap.Lib.ConstantProduct
import ArkSwap.Library
import ArkSwap.PairSpec

/-! What the library's functions return: sorted tokens, the address of a
pair, reserves in path order and the amounts of one hop. -/

namespace ArkSwap

open Checked

namespace ArkSwapLibrary

/-- The address of the pair of two tokens. -/
def pool (env : Env) (a b : Address) : Address :=
  create2 env (pairSalt env (min a b) (max a b)) PAIR_INIT_CODE_HASH

theorem sortTokens_eq_ok {a b : Address} {s : Address × Address} :
    sortTokens a b = .ok s ↔ a ≠ b ∧ min a b ≠ 0 ∧ s = (min a b, max a b) := by
  rw [sortTokens, sorted_eq]
  simp only [bind_eq_ok, require_eq_ok, pure_eq_ok, Except.ok.injEq]
  constructor
  · rintro ⟨-, hne, -, h0, rfl⟩
    exact ⟨hne, h0, rfl⟩
  · rintro ⟨hne, h0, rfl⟩
    exact ⟨(), hne, (), h0, rfl⟩

theorem pairFor_eq_ok {env : Env} {a b c : Address} :
    pairFor env a b = .ok c ↔ a ≠ b ∧ min a b ≠ 0 ∧ c = pool env a b := by
  simp only [pairFor, bind_eq_ok, sortTokens_eq_ok, pure_eq_ok, Except.ok.injEq]
  constructor
  · rintro ⟨_, ⟨hne, h0, rfl⟩, rfl⟩
    exact ⟨hne, h0, rfl⟩
  · rintro ⟨hne, h0, rfl⟩
    exact ⟨_, ⟨hne, h0, rfl⟩, rfl⟩

/-- The reserve a pair holds of one of its tokens. -/
def reserveOf (p : ArkSwapPair) (t : Address) : Nat :=
  if t = p.token0 then p.reserve0 else p.reserve1

theorem getReserves_ok {env : Env} {w : World} {a b : Address} {r : Nat × Nat}
    (h : getReserves env w a b = .ok r) :
    a ≠ b ∧ min a b ≠ 0 ∧ ∃ p, w.pair (pool env a b) = some p ∧
      r = if a = min a b then (p.reserve0, p.reserve1) else (p.reserve1, p.reserve0) := by
  simp only [getReserves, bind_eq_ok, sortTokens_eq_ok, pairFor_eq_ok, World.storage_eq_ok,
    pure_eq_ok, Except.ok.injEq] at h
  obtain ⟨_, ⟨hne, h0, rfl⟩, _, ⟨-, -, rfl⟩, p, hp, rfl⟩ := h
  exact ⟨hne, h0, p, hp, rfl⟩

/-- Nothing `getAmountOut` computes exceeds 256 bits. -/
def OutFits (amountIn reserveIn reserveOut : Nat) : Prop :=
  amountIn * 997 * reserveOut < Uint.size ∧ reserveIn * 1000 + amountIn * 997 < Uint.size

/-- Nothing `getAmountIn` computes exceeds 256 bits. -/
def InFits (amountOut reserveIn reserveOut : Nat) : Prop :=
  reserveIn * amountOut * 1000 < Uint.size ∧ (reserveOut - amountOut) * 997 < Uint.size ∧
    reserveIn * amountOut * 1000 / ((reserveOut - amountOut) * 997) + 1 < Uint.size

instance (x r R : Nat) : Decidable (OutFits x r R) := inferInstanceAs (Decidable (_ ∧ _))

instance (y r R : Nat) : Decidable (InFits y r R) := inferInstanceAs (Decidable (_ ∧ _))

theorem getAmountOut_eq_ok {x r R y : Nat} :
    getAmountOut x r R = .ok y ↔
      0 < x ∧ 0 < r ∧ 0 < R ∧ OutFits x r R ∧ y = ConstantProduct.amountOut 1000 3 x r R := by
  simp only [getAmountOut, bind_eq_ok, require_eq_ok, SafeMath.mul_eq_ok, SafeMath.add_eq_ok,
    Uint.div_eq_ok]
  constructor
  · rintro ⟨-, hx, -, ⟨hr, hR⟩, _, ⟨-, rfl⟩, _, ⟨hn, rfl⟩, _, ⟨-, rfl⟩, _, ⟨hd, rfl⟩, -, rfl⟩
    exact ⟨hx, hr, hR, ⟨hn, hd⟩, rfl⟩
  · rintro ⟨hx, hr, hR, ⟨hn, hd⟩, rfl⟩
    have hfee : x * 997 < Uint.size := (Nat.le_add_left _ _).trans_lt hd
    have hin : r * 1000 < Uint.size := (Nat.le_add_right _ _).trans_lt hd
    exact ⟨(), hx, (), ⟨hr, hR⟩, _, ⟨hfee, rfl⟩, _, ⟨hn, rfl⟩, _, ⟨hin, rfl⟩, _, ⟨hd, rfl⟩,
      Nat.ne_of_gt (Nat.add_pos_left (Nat.mul_pos hr (by norm_num)) _), rfl⟩

theorem getAmountIn_eq_ok {x r R y : Nat} :
    getAmountIn y r R = .ok x ↔ 0 < y ∧ 0 < r ∧ y < R ∧ InFits y r R ∧
      x = r * y * 1000 / ((R - y) * 997) + 1 := by
  simp only [getAmountIn, bind_eq_ok, require_eq_ok, SafeMath.mul_eq_ok, SafeMath.sub_eq_ok,
    SafeMath.add_eq_ok, Uint.div_eq_ok]
  constructor
  · rintro ⟨-, hy, -, ⟨hr, -⟩, _, ⟨-, rfl⟩, _, ⟨hn, rfl⟩, _, ⟨hle, rfl⟩, _, ⟨hd, rfl⟩, _,
      ⟨h0, rfl⟩, hs, rfl⟩
    exact ⟨hy, hr, by omega, ⟨hn, hd, hs⟩, rfl⟩
  · rintro ⟨hy, hr, hlt, ⟨hn, hd, hs⟩, rfl⟩
    have hprod : r * y < Uint.size := (Nat.le_mul_of_pos_right _ (by norm_num)).trans_lt hn
    exact ⟨(), hy, (), ⟨hr, hy.trans hlt⟩, _, ⟨hprod, rfl⟩, _, ⟨hn, rfl⟩, _, ⟨hlt.le, rfl⟩, _,
      ⟨hd, rfl⟩, _, ⟨Nat.ne_of_gt (Nat.mul_pos (Nat.sub_pos_of_lt hlt) (by norm_num)), rfl⟩, hs, rfl⟩

theorem getAmountOut_ok {x r R y : Nat} (h : getAmountOut x r R = .ok y) :
    0 < x ∧ 0 < r ∧ 0 < R ∧ y = ConstantProduct.amountOut 1000 3 x r R := by
  obtain ⟨hx, hr, hR, -, hy⟩ := getAmountOut_eq_ok.mp h
  exact ⟨hx, hr, hR, hy⟩

theorem getAmountIn_ok {x r R y : Nat} (h : getAmountIn y r R = .ok x) :
    0 < y ∧ 0 < x ∧ 0 < r ∧ y < R ∧ ConstantProduct.Pays 1000 3 x r R y := by
  obtain ⟨hy, hr, hlt, -, rfl⟩ := getAmountIn_eq_ok.mp h
  exact ⟨hy, Nat.succ_pos _, hr, hlt,
    ConstantProduct.pays_of_quotient_lt hlt (by norm_num) (Nat.lt_succ_self _)⟩

theorem OutFits.of_max112 {x r R : Nat} (hr : r + x ≤ Uint.max112) (hR : R ≤ Uint.max112) :
    OutFits x r R := by
  have hx : x * 997 * R ≤ Uint.max112 * 997 * Uint.max112 :=
    Nat.mul_le_mul (Nat.mul_le_mul_right _ (by omega)) hR
  refine ⟨hx.trans_lt (by norm_num [Uint.max112, Uint.size]), ?_⟩
  unfold Uint.max112 at hr
  unfold Uint.size
  omega

theorem OutFits.mono {x x' r R : Nat} (hle : x ≤ x') (h : OutFits x' r R) : OutFits x r R :=
  ⟨(Nat.mul_le_mul_right _ (Nat.mul_le_mul_right _ hle)).trans_lt h.1,
    (Nat.add_le_add_left (Nat.mul_le_mul_right _ hle) _).trans_lt h.2⟩

theorem amountsOut_shape {env : Env} {w : World} {x : Nat} {path : List Address}
    {amounts : List Nat} (h : amountsOut env w x path = .ok amounts) (hne : path ≠ []) :
    amounts.length = path.length ∧ amounts.head? = some x := by
  induction path generalizing x amounts with
  | nil => exact (hne rfl).elim
  | cons a path ih =>
    match path with
    | [] =>
      obtain rfl := Except.ok.inj h
      exact ⟨rfl, rfl⟩
    | b :: path =>
      simp only [amountsOut, bind_eq_ok, pure_eq_ok, Except.ok.injEq] at h
      obtain ⟨r, -, y, -, rest, hrest, rfl⟩ := h
      obtain ⟨hlen, -⟩ := ih hrest (List.cons_ne_nil _ _)
      exact ⟨congrArg (· + 1) hlen, rfl⟩

theorem getAmountsOut_shape {env : Env} {w : World} {x : Nat} {path : List Address}
    {amounts : List Nat} (h : getAmountsOut env w x path = .ok amounts) :
    amounts.length = path.length ∧ amounts.head? = some x := by
  rw [getAmountsOut, bind_eq_ok] at h
  obtain ⟨_, hlen, h⟩ := h
  rw [require_eq_ok] at hlen
  exact amountsOut_shape h (List.ne_nil_of_length_pos (by omega))

theorem amountsIn_length {env : Env} {w : World} {x y : Nat} {path : List Address}
    {amounts : List Nat} (h : amountsIn env w y path = .ok (x, amounts)) (hne : path ≠ []) :
    amounts.length + 1 = path.length := by
  induction path generalizing x amounts with
  | nil => exact (hne rfl).elim
  | cons a path ih =>
    match path with
    | [] =>
      obtain ⟨-, rfl⟩ := Prod.mk.inj (Except.ok.inj h)
      rfl
    | b :: path =>
      simp only [amountsIn, bind_eq_ok, pure_eq_ok, Except.ok.injEq, Prod.mk.injEq] at h
      obtain ⟨⟨z, rest⟩, hrest, -, -, -, -, -, rfl⟩ := h
      exact congrArg (· + 1) (ih hrest (List.cons_ne_nil _ _))

theorem getAmountsIn_length {env : Env} {w : World} {y : Nat} {path : List Address}
    {amounts : List Nat} (h : getAmountsIn env w y path = .ok amounts) :
    amounts.length = path.length := by
  simp only [getAmountsIn, bind_eq_ok, require_eq_ok, pure_eq_ok, Except.ok.injEq] at h
  obtain ⟨-, hlen, ⟨x, rest⟩, hrest, rfl⟩ := h
  exact amountsIn_length hrest (List.ne_nil_of_length_pos (by omega))

end ArkSwapLibrary

end ArkSwap
