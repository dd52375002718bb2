import ArkSwap.PairExit

/-! When a swap without callback succeeds. -/

namespace ArkSwap

open Checked ArkSwapPair

namespace ArkSwapPair

variable {env : Env} {w : World} {p : ArkSwapPair} {self : Address} {o₀ o₁ : Nat}

theorem sendOut_defined {t : Address} (dst : Address) {v : Nat} (hs : Standard env t)
    (hc : (w.token t).Conserved) (hv : v ≤ w.balanceOf t self) :
    sendOut env w t self dst v = .ok (w.moved t self dst v) := by
  unfold sendOut
  by_cases h0 : v > 0
  · rw [if_pos h0, safeTransfer_eq_ok, World.transfer_eq_ok hs]
    exact ⟨hv, hc.debit_add_lt hv, rfl⟩
  · rw [if_neg h0, Nat.eq_zero_of_not_pos h0, World.moved_zero]

theorem amountIn_le (b r o : Nat) : amountIn b r o ≤ b := by
  unfold amountIn
  split <;> omega

theorem adjusted_defined {b i : Nat} (hb : b ≤ Uint.max112) (hi : i ≤ b) :
    adjusted b i = .ok (b * 1000 - i * 3) := by
  rw [adjusted_eq_ok]
  unfold Uint.max112 at hb
  unfold Uint.size
  refine ⟨?_, ?_, ?_, rfl⟩ <;> omega

theorem requireK_defined {b₀ b₁ i₀ i₁ r₀ r₁ : Nat} (hr₀ : r₀ ≤ Uint.max112)
    (hr₁ : r₁ ≤ Uint.max112) (hb₀ : b₀ ≤ Uint.max112) (hb₁ : b₁ ≤ Uint.max112) (hi₀ : i₀ ≤ b₀)
    (hi₁ : i₁ ≤ b₁) (hK : ConstantProduct.Accepts 1000 3 (r₀ * r₁) b₀ i₀ b₁ i₁) :
    requireK b₀ b₁ i₀ i₁ r₀ r₁ = .ok () := by
  have hr := product_lt hr₀ hr₁
  have hb : (b₀ * 1000) * (b₁ * 1000) < Uint.size := by
    calc (b₀ * 1000) * (b₁ * 1000) ≤ (Uint.max112 * 1000) * (Uint.max112 * 1000) :=
          Nat.mul_le_mul (Nat.mul_le_mul_right _ hb₀) (Nat.mul_le_mul_right _ hb₁)
      _ < Uint.size := by norm_num [Uint.max112, Uint.size]
  have hk : r₀ * r₁ * 1000 ^ 2 < Uint.size := by
    calc r₀ * r₁ * 1000 ^ 2 ≤ 2 ^ 224 * 1000 ^ 2 := Nat.mul_le_mul_right _ hr.le
      _ < Uint.size := by norm_num [Uint.size]
  have hprod : (b₀ * 1000 - i₀ * 3) * (b₁ * 1000 - i₁ * 3) < Uint.size :=
    lt_of_le_of_lt (Nat.mul_le_mul (Nat.sub_le _ _) (Nat.sub_le _ _)) hb
  have hmul : ∀ {x y}, x * y < Uint.size → SafeMath.mul x y = .ok (x * y) := fun h => if_pos h
  rw [ConstantProduct.Accepts] at hK
  rw [requireK, adjusted_defined hb₀ hi₀, ok_bind, adjusted_defined hb₁ hi₁, ok_bind, hmul hprod,
    ok_bind, hmul (hr.trans (by norm_num [Uint.size])), ok_bind, hmul hk, ok_bind]
  exact require_of hK _

theorem swap_defined (sender : Address) {dst : Address} (hp : w.pair self = some p) (hu : p.unlocked = 1)
    (hs₀ : Standard env p.token0) (hs₁ : Standard env p.token1) (hne : p.token0 ≠ p.token1)
    (hc₀ : (w.token p.token0).Conserved) (hc₁ : (w.token p.token1).Conserved)
    (hr₀ : p.reserve0 ≤ Uint.max112) (hr₁ : p.reserve1 ≤ Uint.max112)
    (hpos : o₀ > 0 ∨ o₁ > 0) (ho₀ : o₀ < p.reserve0) (ho₁ : o₁ < p.reserve1)
    (hd₀ : dst ≠ p.token0) (hd₁ : dst ≠ p.token1)
    (hb₀ : p.reserve0 ≤ w.balanceOf p.token0 self) (hb₁ : p.reserve1 ≤ w.balanceOf p.token1 self)
    {b₀ b₁ : Nat} (h₀ : (paidOut w self dst p o₀ o₁).balanceOf p.token0 self = b₀)
    (h₁ : (paidOut w self dst p o₀ o₁).balanceOf p.token1 self = b₁)
    (hin : amountIn b₀ p.reserve0 o₀ > 0 ∨ amountIn b₁ p.reserve1 o₁ > 0)
    (hK : ConstantProduct.Accepts 1000 3 (p.reserve0 * p.reserve1) b₀
      (amountIn b₀ p.reserve0 o₀) b₁ (amountIn b₁ p.reserve1 o₁))
    (hf₀ : b₀ ≤ Uint.max112) (hf₁ : b₁ ≤ Uint.max112) :
    ∃ q w', swap env w self sender o₀ o₁ dst none = .ok ((), w') ∧
      w'.pair = Function.update w.pair self (some q) ∧
      w'.token = (paidOut w self dst p o₀ o₁).token := by
  have hstore : (w.setPair self { p with unlocked := 0 }).storage self =
      .ok { p with unlocked := 0 } := World.storage_eq_ok.mpr (World.setPair_pair _ _ _)
  have hsend₀ : sendOut env (w.setPair self { p with unlocked := 0 }) p.token0 self dst o₀ =
      .ok ((w.setPair self { p with unlocked := 0 }).moved p.token0 self dst o₀) :=
    sendOut_defined dst hs₀ hc₀ (ho₀.le.trans hb₀)
  have hsend₁ : sendOut env ((w.setPair self { p with unlocked := 0 }).moved p.token0 self dst o₀)
      p.token1 self dst o₁ =
      .ok (paidOut (w.setPair self { p with unlocked := 0 }) self dst p o₀ o₁) := by
    refine sendOut_defined dst hs₁ ?_ ?_
    · rwa [World.moved_token_of_ne _ _ _ hne.symm]
    · rw [World.balanceOf_moved_of_ne _ _ _ _ hne.symm]
      exact ho₁.le.trans hb₁
  have hafter : (paidOut (w.setPair self { p with unlocked := 0 }) self dst p o₀ o₁).storage self =
      .ok { p with unlocked := 0 } := World.storage_eq_ok.mpr (World.setPair_pair _ _ _)
  have hbal : ∀ t, (paidOut (w.setPair self { p with unlocked := 0 }) self dst p o₀ o₁).balanceOf
      t self = (paidOut w self dst p o₀ o₁).balanceOf t self := fun t => rfl
  obtain ⟨q, hq⟩ := update_defined { p with unlocked := 0 }
    (paidOut (w.setPair self { p with unlocked := 0 }) self dst p o₀ o₁).timestamp
    p.reserve0 p.reserve1 hf₀ hf₁
  have hk := requireK_defined hr₀ hr₁ hf₀ hf₁ (amountIn_le _ _ _) (amountIn_le _ _ _) hK
  have hrun : ∃ r, swap env w self sender o₀ o₁ dst none = .ok r := by
    rw [swap, lock_open _ hp hu]
    rw [hstore, require_of hpos, ok_bind, ok_bind, require_of (And.intro ho₀ ho₁), ok_bind,
      require_of (And.intro hd₀ hd₁), ok_bind, hsend₀, ok_bind, hsend₁, ok_bind, callback, ok_bind]
    simp only [hbal, h₀, h₁]
    rw [require_of hin, ok_bind, hk, ok_bind, hafter, ok_bind, hq, ok_bind]
    simp [World.storage]
  obtain ⟨⟨⟨⟩, w'⟩, hw'⟩ := hrun
  obtain ⟨-, -, -, -, -, -, -, w₁, p₁, q', hcall, -, -, -, hpair, htok, -⟩ :=
    swap_ok hs₀ hs₁ hp hw'
  obtain rfl := Except.ok.inj hcall
  refine ⟨q', w', hw', ?_, htok⟩
  rw [hpair]
  simp [paidOut, World.setPair]

end ArkSwapPair

end ArkSwap
