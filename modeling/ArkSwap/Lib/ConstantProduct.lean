import Mathlib.Tactic.Linarith
import Mathlib.Tactic.Ring
import Mathlib.Algebra.Order.Ring.Nat

/-! A constant-product market whose trades pay `f` parts in `s` of their
input. All quantities are natural numbers and quotients are rounded down. -/

namespace ConstantProduct

def Accepts (s f K b₀ i₀ b₁ i₁ : ℕ) : Prop :=
  K * s ^ 2 ≤ (b₀ * s - i₀ * f) * (b₁ * s - i₁ * f)

def amountOut (s f a r R : ℕ) : ℕ := a * (s - f) * R / (r * s + a * (s - f))

theorem Accepts.product_le {s f K b₀ i₀ b₁ i₁ : ℕ} (hs : 0 < s)
    (h : Accepts s f K b₀ i₀ b₁ i₁) : K ≤ b₀ * b₁ := by
  have hpos : 0 < s ^ 2 := by positivity
  refine Nat.le_of_mul_le_mul_right (h.trans ?_) hpos
  calc (b₀ * s - i₀ * f) * (b₁ * s - i₁ * f) ≤ (b₀ * s) * (b₁ * s) :=
        Nat.mul_le_mul (Nat.sub_le _ _) (Nat.sub_le _ _)
    _ = b₀ * b₁ * s ^ 2 := by ring

theorem amountOut_mul_le (s f a r R : ℕ) :
    amountOut s f a r R * (r * s + a * (s - f)) ≤ a * (s - f) * R :=
  Nat.div_mul_le_self _ _

theorem amountOut_lt {s f a r R : ℕ} (hs : 0 < s) (hr : 0 < r) (hR : 0 < R) :
    amountOut s f a r R < R := by
  have hpos : 0 < r * s := Nat.mul_pos hr hs
  rw [amountOut, Nat.div_lt_iff_lt_mul (by omega), Nat.mul_comm R]
  exact Nat.mul_lt_mul_of_pos_right (by omega) hR

/-- What the least input covering an output `o` is rounded up from. -/
def Pays (s f a r R o : ℕ) : Prop := o * (r * s + a * (s - f)) ≤ a * (s - f) * R

theorem pays_amountOut (s f a r R : ℕ) : Pays s f a r R (amountOut s f a r R) :=
  amountOut_mul_le s f a r R

/-- What an input buys is the largest output it covers. -/
theorem le_amountOut_iff {s f a r R o : ℕ} (hs : 0 < s) (hr : 0 < r) :
    o ≤ amountOut s f a r R ↔ Pays s f a r R o := by
  have hpos : 0 < r * s + a * (s - f) := Nat.add_pos_left (Nat.mul_pos hr hs) _
  rw [amountOut, Nat.le_div_iff_mul_le hpos, Pays]

theorem pays_iff {s f a r R o : ℕ} (ho : o ≤ R) :
    Pays s f a r R o ↔ o * (r * s) ≤ a * (s - f) * (R - o) := by
  obtain ⟨d, rfl⟩ := Nat.exists_eq_add_of_le ho
  have hl : o * (r * s + a * (s - f)) = o * (r * s) + a * (s - f) * o := by ring
  have hr : a * (s - f) * (o + d) = a * (s - f) * d + a * (s - f) * o := by ring
  rw [Pays, hl, hr, Nat.add_sub_cancel_left, Nat.add_le_add_iff_right]

theorem Pays.mono {s f a b r R o : ℕ} (hab : a ≤ b) (ho : o ≤ R) (h : Pays s f a r R o) :
    Pays s f b r R o := by
  rw [pays_iff ho] at h ⊢
  exact h.trans (Nat.mul_le_mul_right _ (Nat.mul_le_mul_right _ hab))

theorem amountOut_mono {s f a b r R : ℕ} (hs : 0 < s) (hr : 0 < r) (hR : 0 < R) (hab : a ≤ b) :
    amountOut s f a r R ≤ amountOut s f b r R :=
  (le_amountOut_iff hs hr).mpr ((pays_amountOut s f a r R).mono hab (amountOut_lt hs hr hR).le)

/-- Two trades in a row buy no more than one trade of both inputs. -/
theorem Pays.append {s f a b r R o u : ℕ} (ho : o ≤ R) (h : Pays s f a r R o)
    (hu : Pays s f b (r + a) (R - o) u) : Pays s f (a + b) r R (o + u) := by
  obtain ⟨d, rfl⟩ := Nat.exists_eq_add_of_le ho
  rw [Nat.add_sub_cancel_left] at hu
  rw [Pays] at h hu ⊢
  have hfee : r * s + (a + b) * (s - f) ≤ (r + a) * s + b * (s - f) := by
    have := Nat.mul_le_mul_left a (Nat.sub_le s f)
    rw [Nat.add_mul, Nat.add_mul]
    omega
  calc (o + u) * (r * s + (a + b) * (s - f))
      = o * (r * s + a * (s - f)) + b * (s - f) * o + u * (r * s + (a + b) * (s - f)) := by ring
    _ ≤ a * (s - f) * (o + d) + b * (s - f) * o + b * (s - f) * d :=
        Nat.add_le_add (Nat.add_le_add_right h _) ((Nat.mul_le_mul_left u hfee).trans hu)
    _ = (a + b) * (s - f) * (o + d) := by ring

/-- What a list of inputs buys, each traded on the reserves the one before left. -/
def totalOut (s f : ℕ) : ℕ → ℕ → List ℕ → ℕ
  | _, _, [] => 0
  | r, R, a :: inputs =>
      amountOut s f a r R + totalOut s f (r + a) (R - amountOut s f a r R) inputs

theorem pays_totalOut {s f r R : ℕ} (hs : 0 < s) (hr : 0 < r) (hR : 0 < R) (inputs : List ℕ) :
    Pays s f inputs.sum r R (totalOut s f r R inputs) := by
  induction inputs generalizing r R with
  | nil => simp [Pays, totalOut]
  | cons a inputs ih =>
    have hlt := amountOut_lt (s := s) (f := f) (a := a) hs hr hR
    rw [List.sum_cons]
    exact (pays_amountOut s f a r R).append hlt.le (ih (Nat.add_pos_left hr a) (Nat.sub_pos_of_lt hlt))

/-- Splitting an input never buys more. -/
theorem totalOut_le {s f r R : ℕ} (hs : 0 < s) (hr : 0 < r) (hR : 0 < R) (inputs : List ℕ) :
    totalOut s f r R inputs ≤ amountOut s f inputs.sum r R :=
  (le_amountOut_iff hs hr).mpr (pays_totalOut hs hr hR inputs)

theorem Pays.quotient_le {s f a r R o : ℕ} (ho : o ≤ R) (h : Pays s f a r R o) :
    r * o * s / ((R - o) * (s - f)) ≤ a := by
  refine Nat.div_le_of_le_mul ?_
  calc r * o * s = o * (r * s) := by ring
    _ ≤ a * (s - f) * (R - o) := (pays_iff ho).mp h
    _ = (R - o) * (s - f) * a := by ring

theorem pays_of_quotient_lt {s f a r R o : ℕ} (ho : o < R) (hf : f < s)
    (ha : r * o * s / ((R - o) * (s - f)) < a) : Pays s f a r R o := by
  obtain ⟨d, rfl⟩ := Nat.exists_eq_add_of_lt ho
  have hd : o + d + 1 - o = d + 1 := by omega
  rw [hd] at ha
  have hpos : 0 < (d + 1) * (s - f) := Nat.mul_pos (Nat.succ_pos d) (by omega)
  have hlt := (Nat.div_lt_iff_lt_mul hpos).mp ha
  rw [Pays]
  calc o * (r * s + a * (s - f)) = r * o * s + a * (s - f) * o := by ring
    _ ≤ a * ((d + 1) * (s - f)) + a * (s - f) * o := Nat.add_le_add_right hlt.le _
    _ = a * (s - f) * (o + d + 1) := by ring

/-- A covered output passes the product test, also when both balances hold
a surplus `x`, `y` over the reserves. -/
theorem Pays.accepts {s f a r R o x y : ℕ} (hf : f ≤ s) (ho : o ≤ R) (h : Pays s f a r R o) :
    Accepts s f (r * R) (r + x + a) (x + a) (R + y - o) y := by
  obtain ⟨R', rfl⟩ := Nat.exists_eq_add_of_le ho
  obtain ⟨g, rfl⟩ := Nat.exists_eq_add_of_le hf
  rw [Pays, Nat.add_sub_cancel_left] at h
  have h₀ : (r + x + a) * (f + g) - (x + a) * f = r * (f + g) + (x + a) * g := by
    rw [show (r + x + a) * (f + g) = r * (f + g) + (x + a) * g + (x + a) * f by ring]
    exact Nat.add_sub_cancel _ _
  have h₁ : (o + R' + y - o) * (f + g) - y * f = R' * (f + g) + y * g := by
    rw [show o + R' + y - o = R' + y by omega,
      show (R' + y) * (f + g) = R' * (f + g) + y * g + y * f by ring]
    exact Nat.add_sub_cancel _ _
  have hpay : o * (r * (f + g)) ≤ a * g * R' := by nlinarith
  rw [Accepts, h₀, h₁]
  calc r * (o + R') * (f + g) ^ 2 = (r * (f + g) * R' + o * (r * (f + g))) * (f + g) := by ring
    _ ≤ (r * (f + g) * R' + a * g * R') * (f + g) :=
        Nat.mul_le_mul_right _ (Nat.add_le_add_left hpay _)
    _ = (r * (f + g) + a * g) * (R' * (f + g)) := by ring
    _ ≤ (r * (f + g) + (x + a) * g) * (R' * (f + g) + y * g) :=
        Nat.mul_le_mul (by nlinarith) (Nat.le_add_right _ _)

theorem Accepts.pays {s f a r R o : ℕ} (hs : 0 < s) (hf : f ≤ s) (ho : o ≤ R)
    (h : Accepts s f (r * R) (r + a) a (R - o) 0) : Pays s f a r R o := by
  obtain ⟨d, rfl⟩ := Nat.exists_eq_add_of_le ho
  obtain ⟨g, rfl⟩ := Nat.exists_eq_add_of_le hf
  rw [pays_iff ho, Nat.add_sub_cancel_left, Nat.add_sub_cancel_left]
  have hin : (r + a) * (f + g) - a * f = r * (f + g) + a * g := by
    rw [show (r + a) * (f + g) = r * (f + g) + a * g + a * f by ring]
    exact Nat.add_sub_cancel _ _
  rw [Accepts, Nat.add_sub_cancel_left, Nat.zero_mul, Nat.sub_zero, hin] at h
  refine Nat.le_of_mul_le_mul_right (c := f + g) ?_ hs
  have he : r * (o + d) * (f + g) ^ 2 = r * d * (f + g) ^ 2 + o * (r * (f + g)) * (f + g) := by ring
  have hd : (r * (f + g) + a * g) * (d * (f + g)) = r * d * (f + g) ^ 2 + a * g * d * (f + g) := by
    ring
  rw [he, hd] at h
  exact Nat.le_of_add_le_add_left h

/-- Without a surplus the product test accepts exactly what the input buys. -/
theorem accepts_iff_le_amountOut {s f a r R o : ℕ} (hs : 0 < s) (hf : f ≤ s) (hr : 0 < r)
    (ho : o ≤ R) : Accepts s f (r * R) (r + a) a (R - o) 0 ↔ o ≤ amountOut s f a r R := by
  rw [le_amountOut_iff hs hr]
  refine ⟨Accepts.pays hs hf ho, fun h => ?_⟩
  have hacc := h.accepts (x := 0) (y := 0) hf ho
  rwa [Nat.add_zero, Nat.zero_add, Nat.add_zero] at hacc

theorem Accepts.swapped {s f K b₀ i₀ b₁ i₁ : ℕ} (h : Accepts s f K b₀ i₀ b₁ i₁) :
    Accepts s f K b₁ i₁ b₀ i₀ := by
  rw [Accepts, Nat.mul_comm (b₁ * s - i₁ * f)]
  exact h

end ConstantProduct
