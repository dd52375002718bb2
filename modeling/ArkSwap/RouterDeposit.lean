import ArkSwap.RouterQuote

/-! The amounts a deposit through the router takes: matched to the reserves,
within what was offered, and refused only where nothing at the pool's ratio
would do. -/

namespace ArkSwap

open Checked ArkSwapPair ArkSwapLibrary ArkSwapRouter02

variable {env : Env} {w w₁ w' : World} {tokenA tokenB : Address}
  {desiredA desiredB minA minB rA rB : Nat}

theorem quote_eq_ok {x r R y : Nat} :
    quote x r R = .ok y ↔ 0 < x ∧ 0 < r ∧ 0 < R ∧ x * R < Uint.size ∧ y = x * R / r := by
  simp only [quote, bind_eq_ok, require_eq_ok, SafeMath.mul_eq_ok, Uint.div_eq_ok]
  constructor
  · rintro ⟨-, hx, -, ⟨hr, hR⟩, _, ⟨hlt, rfl⟩, -, rfl⟩
    exact ⟨hx, hr, hR, hlt, rfl⟩
  · rintro ⟨hx, hr, hR, hlt, rfl⟩
    exact ⟨(), hx, (), ⟨hr, hR⟩, _, ⟨hlt, rfl⟩, hr.ne', rfl⟩

theorem quote_cases {x r R : Nat} (hr : 0 < r) (hR : 0 < R) (hlt : x * R < Uint.size) :
    quote x r R = .ok (x * R / r) ∨
      quote x r R = .error "ArkSwapLibrary: INSUFFICIENT_AMOUNT" := by
  rcases Nat.eq_zero_or_pos x with rfl | hx
  · exact .inr rfl
  · exact .inl (quote_eq_ok.mpr ⟨hx, hr, hR, hlt, rfl⟩)

theorem quote_back_le {A B r R : Nat} (hr : 0 < r) (h : B < A * R / r) : B * r / R ≤ A := by
  have hlt := (Nat.lt_div_iff_mul_lt hr).mp h
  exact Nat.div_le_of_le_mul (by rw [Nat.mul_comm R]; omega)

/-- The amounts in a funded pool, by which of the two offers is used up. -/
theorem addLiquidityAmounts_cases (minA minB : Nat) (hpair : withPair env w tokenA tokenB = .ok w₁)
    (hres : getReserves env w₁ tokenA tokenB = .ok (rA, rB)) (hrA : 0 < rA) (hrB : 0 < rB)
    (hA : desiredA * rB < Uint.size) (hB : desiredB * rA < Uint.size) :
    addLiquidityAmounts env w tokenA tokenB desiredA desiredB minA minB =
        .error "ArkSwapLibrary: INSUFFICIENT_AMOUNT" ∨
      desiredA * rB / rA ≤ desiredB ∧
        addLiquidityAmounts env w tokenA tokenB desiredA desiredB minA minB =
          (if minB ≤ desiredA * rB / rA then .ok ((desiredA, desiredA * rB / rA), w₁)
          else .error "ArkSwapRouter: INSUFFICIENT_B_AMOUNT") ∨
      desiredB < desiredA * rB / rA ∧
        addLiquidityAmounts env w tokenA tokenB desiredA desiredB minA minB =
          (if minA ≤ desiredB * rA / rB then .ok ((desiredB * rA / rB, desiredB), w₁)
          else .error "ArkSwapRouter: INSUFFICIENT_A_AMOUNT") := by
  have h0 : ¬ (rA = 0 ∧ rB = 0) := fun h => hrA.ne' h.1
  unfold addLiquidityAmounts
  simp only [hpair, ok_bind, hres, if_neg h0]
  rcases quote_cases hrA hrB hA with hq | hq
  · rw [hq, ok_bind]
    by_cases hle : desiredA * rB / rA ≤ desiredB
    · refine .inr (.inl ⟨hle, ?_⟩)
      rw [if_pos hle]
      by_cases hmin : minB ≤ desiredA * rB / rA
      · rw [if_pos hmin, require_of hmin]
        rfl
      · rw [if_neg hmin, require_error_of_not hmin]
        rfl
    · rw [if_neg hle]
      rcases quote_cases hrB hrA hB with hq' | hq'
      · -- the offer of A covers what all of B is worth, so the assertion holds
        have hassert := quote_back_le hrA (Nat.lt_of_not_le hle)
        refine .inr (.inr ⟨Nat.lt_of_not_le hle, ?_⟩)
        rw [hq', ok_bind, require_of hassert, ok_bind]
        by_cases hmin : minA ≤ desiredB * rA / rB
        · rw [if_pos hmin, require_of hmin]
          rfl
        · rw [if_neg hmin, require_error_of_not hmin]
          rfl
      · rw [hq']
        exact .inl rfl
  · rw [hq]
    exact .inl rfl

theorem le_quote {A B offer r R : Nat} (hr : 0 < r) (hle : A ≤ offer) (h : B * r ≤ A * R) :
    B ≤ offer * R / r :=
  (Nat.le_div_iff_mul_le hr).mpr (h.trans (Nat.mul_le_mul_right R hle))

/-- Matching a deposit never trips the assertion; what it returns uses up one
offer and matches the other, within the offers and above the minimums. Where it
refuses, every pair within the offers that meets both minimums has more of the
amount named in the reason than the other amount is worth. -/
theorem deposit_matching (hpair : withPair env w tokenA tokenB = .ok w₁)
    (hres : getReserves env w₁ tokenA tokenB = .ok (rA, rB)) (hrA : 0 < rA) (hrB : 0 < rB)
    (hA : desiredA * rB < Uint.size) (hB : desiredB * rA < Uint.size) (hminA : minA ≤ desiredA)
    (hminB : minB ≤ desiredB) :
    addLiquidityAmounts env w tokenA tokenB desiredA desiredB minA minB ≠
        .error "invalid opcode" ∧
      (∀ A B w', addLiquidityAmounts env w tokenA tokenB desiredA desiredB minA minB =
          .ok ((A, B), w') →
        A ≤ desiredA ∧ B ≤ desiredB ∧ minA ≤ A ∧ minB ≤ B ∧
          (A = desiredA ∧ B = desiredA * rB / rA ∨ B = desiredB ∧ A = desiredB * rA / rB)) ∧
      (addLiquidityAmounts env w tokenA tokenB desiredA desiredB minA minB =
          .error "ArkSwapRouter: INSUFFICIENT_B_AMOUNT" →
        ∀ A B, A ≤ desiredA → B ≤ desiredB → minA ≤ A → minB ≤ B → A * rB < B * rA) ∧
      (addLiquidityAmounts env w tokenA tokenB desiredA desiredB minA minB =
          .error "ArkSwapRouter: INSUFFICIENT_A_AMOUNT" →
        ∀ A B, A ≤ desiredA → B ≤ desiredB → minA ≤ A → minB ≤ B → B * rA < A * rB) := by
  rcases addLiquidityAmounts_cases minA minB hpair hres hrA hrB hA hB with
    h | ⟨hle, h⟩ | ⟨hlt, h⟩
  · rw [h]
    exact ⟨by simp, by simp, by simp, by simp⟩
  · rw [h]
    split_ifs with hmin
    · refine ⟨by simp, fun A B w' hAB => ?_, by simp, by simp⟩
      obtain ⟨⟨rfl, rfl⟩, -⟩ := by simpa using hAB
      exact ⟨le_rfl, hle, hminA, hmin, .inl ⟨rfl, rfl⟩⟩
    · refine ⟨by simp, by simp, fun _ A B hA' _ _ hB' => ?_, by simp⟩
      by_contra hworth
      exact hmin (hB'.trans (le_quote hrA hA' (Nat.le_of_not_lt hworth)))
  · rw [h]
    split_ifs with hmin
    · refine ⟨by simp, fun A B w' hAB => ?_, by simp, by simp⟩
      obtain ⟨⟨rfl, rfl⟩, -⟩ := by simpa using hAB
      exact ⟨quote_back_le hrA hlt, le_rfl, hmin, hminB, .inr ⟨rfl, rfl⟩⟩
    · refine ⟨by simp, by simp, by simp, fun _ A B _ hB' hA' _ => ?_⟩
      by_contra hworth
      exact hmin (hA'.trans (le_quote hrB hB' (Nat.le_of_not_lt hworth)))

def unevenMarket : World :=
  { market with
    pair := fun a => if a = pool hashEnv 4 5 then some { ArkSwapPair.initial 4 5 with
      reserve0 := 3000, reserve1 := 2000 } else none
    factory := { market.factory with getPair := fun _ _ => pool hashEnv 4 5 } }

theorem unevenMarket_reserves : getReserves hashEnv unevenMarket 4 5 = .ok (3000, 2000) := by
  have hsort : sortTokens 4 5 = .ok (4, 5) := by decide
  have hfor : pairFor hashEnv 4 5 = .ok (pool hashEnv 4 5) :=
    pairFor_eq_ok.mpr ⟨by decide, by decide, rfl⟩
  have hstore : unevenMarket.storage (pool hashEnv 4 5) = .ok
      { ArkSwapPair.initial 4 5 with reserve0 := 3000, reserve1 := 2000 } :=
    World.storage_eq_ok.mpr (by simp only [unevenMarket, if_true])
  simp only [getReserves, hsort, hfor, hstore, ok_bind]
  rfl

theorem unevenMarket_pair : withPair hashEnv unevenMarket 4 5 = .ok unevenMarket :=
  if_neg (by decide +kernel)

theorem unevenMarket_matching :
    (addLiquidityAmounts hashEnv unevenMarket 4 5 3 1 1 1).map Prod.fst = .ok (1, 1) ∧
      ∀ A B w', addLiquidityAmounts hashEnv unevenMarket 4 5 3 1 1 1 = .ok ((A, B), w') →
        A ≤ 3 ∧ B ≤ 1 ∧ 1 ≤ A ∧ 1 ≤ B ∧
          (A = 3 ∧ B = 3 * 2000 / 3000 ∨ B = 1 ∧ A = 1 * 3000 / 2000) :=
  ⟨by decide +kernel, (deposit_matching unevenMarket_pair unevenMarket_reserves (by decide) (by decide)
    (by decide +kernel) (by decide +kernel) (by decide) (by decide)).2.1⟩

/-- Two of token 4 are quoted as one of token 5, and the router takes this pair
when it is all that is offered; offered one more of token 4 it refuses. -/
theorem floored_pair_refused :
    (addLiquidityAmounts hashEnv unevenMarket 4 5 3 1 2 1).map Prod.fst =
        .error "ArkSwapRouter: INSUFFICIENT_A_AMOUNT" ∧
      (∃ A B, A ≤ 3 ∧ B ≤ 1 ∧ 2 ≤ A ∧ 1 ≤ B ∧ quote A 3000 2000 = .ok B) ∧
      (addLiquidityAmounts hashEnv unevenMarket 4 5 2 1 2 1).map Prod.fst = .ok (2, 1) :=
  ⟨by decide +kernel, ⟨2, 1, by decide, by decide, by decide, by decide, by decide +kernel⟩,
    by decide +kernel⟩

end ArkSwap
