import Mathlib.Tactic.Linarith
import Mathlib.Tactic.Ring
import Mathlib.Algebra.Order.Ring.Nat

/-! Shares of a pooled product: issuing and redeeming shares pro rata with
every division rounded down, and a fee charged in shares of the growth. -/

namespace Shares

/-- The product held per squared share does not fall. -/
def Keeps (K S K' S' : ℕ) : Prop := K * S' ^ 2 ≤ K' * S ^ 2

theorem Keeps.refl (K S : ℕ) : Keeps K S K S := le_refl _

theorem Keeps.of_le {K K' : ℕ} (h : K ≤ K') (S : ℕ) : Keeps K S K' S :=
  Nat.mul_le_mul_right _ h

theorem Keeps.trans {K S K' S' K'' S'' : ℕ} (hS : 0 < S')
    (h : Keeps K S K' S') (h' : Keeps K' S' K'' S'') : Keeps K S K'' S'' := by
  have hpos : 0 < S' ^ 2 := by positivity
  refine Nat.le_of_mul_le_mul_right ?_ hpos
  calc K * S'' ^ 2 * S' ^ 2 = K * S' ^ 2 * S'' ^ 2 := by ring
    _ ≤ K' * S ^ 2 * S'' ^ 2 := Nat.mul_le_mul_right _ h
    _ = K' * S'' ^ 2 * S ^ 2 := by ring
    _ ≤ K'' * S' ^ 2 * S ^ 2 := Nat.mul_le_mul_right _ h'
    _ = K'' * S ^ 2 * S' ^ 2 := by ring

/-- What a holder has of the product, as long as it gives no shares away. -/
theorem Keeps.stake {K S K' S' x x' : ℕ} (h : Keeps K S K' S') (hx : x ≤ x') :
    K * x ^ 2 * S' ^ 2 ≤ K' * x' ^ 2 * S ^ 2 := by
  calc K * x ^ 2 * S' ^ 2 = K * S' ^ 2 * x ^ 2 := by ring
    _ ≤ K' * S ^ 2 * x' ^ 2 := Nat.mul_le_mul h (Nat.pow_le_pow_left hx 2)
    _ = K' * x' ^ 2 * S ^ 2 := by ring

theorem Keeps.of_each {r₀ r₁ S r₀' r₁' S' : ℕ} (h₀ : r₀ * S' ≤ r₀' * S)
    (h₁ : r₁ * S' ≤ r₁' * S) : Keeps (r₀ * r₁) S (r₀' * r₁') S' := by
  calc r₀ * r₁ * S' ^ 2 = (r₀ * S') * (r₁ * S') := by ring
    _ ≤ (r₀' * S) * (r₁' * S) := Nat.mul_le_mul h₀ h₁
    _ = r₀' * r₁' * S ^ 2 := by ring

theorem Keeps.covered {K S K' S' : ℕ} (hS : 0 < S) (hc : S ^ 2 ≤ K)
    (h : Keeps K S K' S') : S' ^ 2 ≤ K' := by
  have hpos : 0 < S ^ 2 := by positivity
  refine Nat.le_of_mul_le_mul_right ?_ hpos
  calc S' ^ 2 * S ^ 2 = S ^ 2 * S' ^ 2 := by ring
    _ ≤ K * S' ^ 2 := Nat.mul_le_mul_right _ hc
    _ ≤ K' * S ^ 2 := h

/-- Issuing at most the share of the reserve that was paid in. -/
theorem issue {r a S L : ℕ} (h : L * r ≤ a * S) : r * (S + L) ≤ (r + a) * S := by
  calc r * (S + L) = r * S + L * r := by ring
    _ ≤ r * S + a * S := Nat.add_le_add_left h _
    _ = (r + a) * S := by ring

theorem issue_div {r a S L : ℕ} (h : L ≤ a * S / r) : r * (S + L) ≤ (r + a) * S :=
  issue ((Nat.mul_le_mul_right r h).trans (Nat.div_mul_le_self _ _))

/-- Redeeming pays at most the share of the balance that was given up. -/
theorem redeem {b S L : ℕ} (hL : L ≤ S) : b * (S - L) ≤ (b - L * b / S) * S := by
  have hx : L * b / S * S ≤ L * b := Nat.div_mul_le_self _ _
  obtain ⟨d, rfl⟩ := Nat.exists_eq_add_of_le hL
  have hle : L * b / (L + d) ≤ b := by
    rcases Nat.eq_zero_or_pos (L + d) with h0 | hpos
    · simp [h0]
    · exact Nat.div_le_of_le_mul (by nlinarith)
  obtain ⟨e, he⟩ := Nat.exists_eq_add_of_le hle
  generalize L * b / (L + d) = x at *
  subst he
  simp only [Nat.add_sub_cancel_left]
  nlinarith

theorem redeem_le {b S L : ℕ} (hL : L ≤ S) : L * b / S ≤ b := by
  rcases Nat.eq_zero_or_pos S with h0 | hpos
  · simp [h0]
  · exact Nat.div_le_of_le_mul (Nat.mul_le_mul_right b hL)

theorem redeem_lt {b S L : ℕ} (hb : 0 < b) (hL : L < S) : L * b / S < b := by
  rw [Nat.div_lt_iff_lt_mul (by omega), Nat.mul_comm b S]
  exact Nat.mul_lt_mul_of_pos_right hL hb

/-- Where the balance per share does not fall, no shares are due less. -/
theorem due_mono {b S b' S' : ℕ} (L : ℕ) (hS' : 0 < S') (h : b * S' ≤ b' * S) :
    L * b / S ≤ L * b' / S' := by
  rcases Nat.eq_zero_or_pos S with rfl | hS
  · simp
  · rw [Nat.le_div_iff_mul_le hS']
    refine Nat.le_of_mul_le_mul_right ?_ hS
    calc L * b / S * S' * S = L * b / S * S * S' := by ring
      _ ≤ L * b * S' := Nat.mul_le_mul_right _ (Nat.div_mul_le_self _ _)
      _ = L * (b * S') := by ring
      _ ≤ L * (b' * S) := Nat.mul_le_mul_left _ h
      _ = L * b' * S := by ring

/-- Shares charged for `1 / (n + 1)` of the growth of a root from `k` to `K`
leave the supply covered by the new root. -/
theorem growth_covered {n K k S L : ℕ} (hk : k ≤ K) (hS : S ≤ k) (hpos : 0 < n * K + k)
    (hL : L * (n * K + k) ≤ S * (K - k)) : S + L ≤ K := by
  obtain ⟨d, rfl⟩ := Nat.exists_eq_add_of_le hk
  simp only [Nat.add_sub_cancel_left] at hL
  refine Nat.le_of_mul_le_mul_right ?_ hpos
  calc (S + L) * (n * (k + d) + k) = S * (n * (k + d) + k) + L * (n * (k + d) + k) := by ring
    _ ≤ k * (n * (k + d) + k) + k * d :=
        Nat.add_le_add (Nat.mul_le_mul_right _ hS) (hL.trans (Nat.mul_le_mul_right _ hS))
    _ ≤ k * (n * (k + d) + k) + (n * (k + d) + k) * d :=
        Nat.add_le_add_left (Nat.mul_le_mul_right _ (Nat.le_add_left _ _)) _
    _ = (k + d) * (n * (k + d) + k) := by ring

/-- What is charged is at most `1 / (n + 1)` of the growth, in shares counted
after the charge. -/
theorem growth_share {n K k S L : ℕ} (hL : L * (n * K + k) ≤ S * (K - k)) (hk : k ≤ K) :
    (n + 1) * K * L ≤ (S + L) * (K - k) := by
  obtain ⟨d, rfl⟩ := Nat.exists_eq_add_of_le hk
  rw [Nat.add_sub_cancel_left] at hL ⊢
  calc (n + 1) * (k + d) * L = L * (n * (k + d) + k) + L * d := by ring
    _ ≤ S * d + L * d := Nat.add_le_add_right hL _
    _ = (S + L) * d := by ring

theorem growth_kept {n K k S L : ℕ} (hL : L * (n * K + k) ≤ S * (K - k)) (hk : k ≤ K) :
    k * (S + L) ≤ K * S := by
  obtain ⟨d, rfl⟩ := Nat.exists_eq_add_of_le hk
  rw [Nat.add_sub_cancel_left] at hL
  have hLk : L * k ≤ L * (n * (k + d) + k) := Nat.mul_le_mul_left _ (Nat.le_add_left _ _)
  calc k * (S + L) = k * S + L * k := by ring
    _ ≤ k * S + S * d := Nat.add_le_add_left (hLk.trans hL) _
    _ = (k + d) * S := by ring

end Shares
