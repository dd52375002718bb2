import Mathlib.Data.Nat.Sqrt
import Mathlib.Tactic.Linarith
import Mathlib.Tactic.Ring
import ArkSwap.Lib.Checked

/-! The contracts' arithmetic on 256-bit words: checked operations, the
Babylonian square root, and 112.112 fixed-point numbers. -/

namespace ArkSwap

open Checked

namespace Uint

/-- The number of 256-bit words. -/
def size : Nat := 2 ^ 256

/-- `uint112(-1)`, the largest reserve. -/
def max112 : Nat := 2 ^ 112 - 1

/-- Unchecked addition of Solidity before 0.8. -/
def add (x y : Nat) : Nat := (x + y) % size

def sub (x y : Nat) : Nat := (x + size - y) % size

def mul (x y : Nat) : Nat := (x * y) % size

def cast32 (x : Nat) : Nat := x % 2 ^ 32

def sub32 (x y : Nat) : Nat := (x + 2 ^ 32 - y) % 2 ^ 32

/-- Division stops the call with an invalid opcode when the divisor is zero. -/
def div (x y : Nat) : Except String Nat :=
  if y = 0 then .error "division by zero" else .ok (x / y)

@[simp] theorem div_eq_ok {x y z : Nat} : div x y = .ok z ↔ y ≠ 0 ∧ z = x / y := by
  by_cases h : y = 0 <;> simp [div, h, eq_comm]

end Uint

namespace SafeMath

def add (x y : Nat) : Except String Nat :=
  if x + y < Uint.size then .ok (x + y) else .error "ds-math-add-overflow"

def sub (x y : Nat) : Except String Nat :=
  if y ≤ x then .ok (x - y) else .error "ds-math-sub-underflow"

def mul (x y : Nat) : Except String Nat :=
  if x * y < Uint.size then .ok (x * y) else .error "ds-math-mul-overflow"

/-- On words the check is the library's own: the wrapped sum is not below
the first operand. -/
theorem add_eq_wrapped {x y : Nat} (hx : x < Uint.size) (hy : y < Uint.size) :
    add x y = if x ≤ Uint.add x y then .ok (Uint.add x y) else .error "ds-math-add-overflow" := by
  unfold Uint.size at hx hy
  by_cases hs : x + y < Uint.size
  · have he : Uint.add x y = x + y := Nat.mod_eq_of_lt hs
    simp only [add, hs, if_true, he, Nat.le_add_right]
  · have he : ¬ x ≤ Uint.add x y := by unfold Uint.size at hs; unfold Uint.add Uint.size; omega
    simp only [add, hs, if_false, he]

theorem sub_eq_wrapped {x y : Nat} (hx : x < Uint.size) (hy : y < Uint.size) :
    sub x y = if Uint.sub x y ≤ x then .ok (Uint.sub x y) else .error "ds-math-sub-underflow" := by
  unfold Uint.size at hx hy
  by_cases hs : y ≤ x
  · have he : Uint.sub x y = x - y := by unfold Uint.sub Uint.size; omega
    simp only [sub, hs, if_true, he, Nat.sub_le]
  · have he : ¬ Uint.sub x y ≤ x := by unfold Uint.sub Uint.size; omega
    simp only [sub, hs, if_false, he]

theorem mul_eq_wrapped (x y : Nat) :
    mul x y = if y = 0 ∨ Uint.mul x y / y = x then .ok (if y = 0 then 0 else Uint.mul x y)
      else .error "ds-math-mul-overflow" := by
  by_cases hy : y = 0
  · simp [mul, hy, Uint.size]
  · by_cases hs : x * y < Uint.size
    · have he : Uint.mul x y = x * y := Nat.mod_eq_of_lt hs
      simp only [mul, hs, if_true, hy, false_or, if_false, he,
        Nat.mul_div_cancel _ (Nat.pos_of_ne_zero hy)]
    · have he : Uint.mul x y / y ≠ x := by
        intro he
        have hd := Nat.div_mul_le_self (Uint.mul x y) y
        have hm : Uint.mul x y < Uint.size := Nat.mod_lt _ (by norm_num [Uint.size])
        rw [he] at hd
        omega
      simp only [mul, hs, if_false, hy, false_or, he]

@[simp] theorem add_eq_ok {x y z : Nat} : add x y = .ok z ↔ x + y < Uint.size ∧ z = x + y := by
  by_cases h : x + y < Uint.size <;> simp [add, h, eq_comm]

@[simp] theorem sub_eq_ok {x y z : Nat} : sub x y = .ok z ↔ y ≤ x ∧ z = x - y := by
  by_cases h : y ≤ x <;> simp [sub, h, eq_comm]

@[simp] theorem mul_eq_ok {x y z : Nat} : mul x y = .ok z ↔ x * y < Uint.size ∧ z = x * y := by
  by_cases h : x * y < Uint.size <;> simp [mul, h, eq_comm]

end SafeMath

namespace Math

def min (x y : Nat) : Nat := if x < y then x else y

theorem min_eq (x y : Nat) : min x y = Nat.min x y := by
  unfold min
  split_ifs with h
  · exact (Nat.min_eq_left h.le).symm
  · exact (Nat.min_eq_right (Nat.le_of_not_lt h)).symm

/-- The loop `while (x < z) { z = x; x = (y / x + x) / 2; }`. -/
def sqrtLoop (y z x : Nat) : Except String Nat :=
  if x < z then do
    let q ← Uint.div y x
    sqrtLoop y x (Uint.add q x / 2)
  else .ok z
termination_by z

/-- Babylonian method. -/
def sqrt (y : Nat) : Except String Nat :=
  if y > 3 then sqrtLoop y y (Uint.add (y / 2) 1)
  else if y ≠ 0 then .ok 1
  else .ok 0

theorem sqrt_le_step {y x : Nat} (hx : 0 < x) : Nat.sqrt y ≤ (y / x + x) / 2 := by
  by_contra hlt
  set s := Nat.sqrt y with hs
  have hy : y < (y / x + 1) * x := by
    have := Nat.lt_mul_div_succ y hx
    rwa [Nat.mul_comm] at this
  have hss : s * s ≤ y := Nat.sqrt_le y
  generalize y / x = q at hlt hy
  have hd : q + 1 + x ≤ 2 * s := by omega
  have hsq : s * s < (q + 1) * x := lt_of_le_of_lt hss hy
  nlinarith [sq_nonneg ((s : ℤ) - x)]

theorem div_le_sqrt_add_two {y x : Nat} (hx : 0 < x) (hs : Nat.sqrt y ≤ x) :
    y / x ≤ Nat.sqrt y + 2 := by
  have hy : y < (Nat.sqrt y + 1) * (Nat.sqrt y + 1) := Nat.lt_succ_sqrt y
  have hm : y < (Nat.sqrt y + 3) * x := by nlinarith
  exact Nat.le_of_lt_succ ((Nat.div_lt_iff_lt_mul hx).mpr (by linarith))

theorem sqrt_lt_of_word {y : Nat} (hy : y < Uint.size) : Nat.sqrt y < 2 ^ 128 := by
  rw [Nat.sqrt_lt]
  exact hy

/-- What holds each time the test of the loop is made. -/
structure Nearing (y z x : Nat) : Prop where
  above : Nat.sqrt y ≤ x
  aboveLast : Nat.sqrt y ≤ z
  bound : x ≤ 2 ^ 255
  stops : z ≤ x → z * z ≤ y

theorem Nearing.start {y : Nat} (hy : y < Uint.size) (h : 3 < y) :
    y / 2 + 1 < Uint.size ∧ Nearing y y (Uint.add (y / 2) 1) := by
  have hw : y < 2 ^ 256 := hy
  have hsum : y / 2 + 1 < Uint.size := by
    rw [Uint.size]
    omega
  have hs : Nat.sqrt y ≤ y / 2 + 1 := by
    have hstep := sqrt_le_step (y := y) (x := 2) (by norm_num)
    omega
  refine ⟨hsum, ?_⟩
  rw [Uint.add, Nat.mod_eq_of_lt hsum]
  exact ⟨hs, Nat.sqrt_le_self y, by omega, fun hle => by omega⟩

theorem Nearing.step {y z x : Nat} (hy : y < Uint.size) (hpos : 0 < y) (h : Nearing y z x) :
    x ≠ 0 ∧ y / x + x < Uint.size ∧ Nearing y x (Uint.add (y / x) x / 2) := by
  have hroot : 0 < Nat.sqrt y := Nat.sqrt_pos.mpr hpos
  have hx : 0 < x := lt_of_lt_of_le hroot h.above
  have hq := div_le_sqrt_add_two hx h.above
  have hr := sqrt_lt_of_word hy
  have hb := h.bound
  have hsum : y / x + x < Uint.size := by
    rw [Uint.size]
    omega
  refine ⟨hx.ne', hsum, ?_⟩
  rw [Uint.add, Nat.mod_eq_of_lt hsum]
  refine ⟨sqrt_le_step hx, h.above, by omega, fun hle => ?_⟩
  have hge : x ≤ y / x := by omega
  exact (Nat.le_div_iff_mul_le hx).mp hge

theorem sqrtLoop_eq {y z x : Nat} (hy : y < Uint.size) (hpos : 0 < y) (h : Nearing y z x) :
    sqrtLoop y z x = .ok (Nat.sqrt y) := by
  induction z using Nat.strong_induction_on generalizing x with
  | _ z ih =>
    rw [sqrtLoop]
    by_cases hlt : x < z
    · obtain ⟨hx, -, hnext⟩ := h.step hy hpos
      rw [if_pos hlt]
      simp only [Uint.div, hx, if_false, ok_bind]
      exact ih x hlt hnext
    · rw [if_neg hlt]
      have hz : z ≤ Nat.sqrt y := Nat.le_sqrt.mpr (h.stops (by omega))
      rw [le_antisymm hz h.aboveLast]

theorem sqrt_eq {y : Nat} (hy : y < Uint.size) : sqrt y = .ok (Nat.sqrt y) := by
  unfold sqrt
  by_cases h : y > 3
  · rw [if_pos h]
    exact sqrtLoop_eq hy (by omega) (Nearing.start hy h).2
  · rw [if_neg h]
    by_cases h0 : y = 0
    · simp [h0]
    · have h1 : 1 = Nat.sqrt y := Nat.eq_sqrt.mpr ⟨by omega, by omega⟩
      rw [if_pos h0, ← h1]

/-- The values of `z` and `x` each time the test of the loop is made. -/
inductive Visits (y : Nat) : Nat → Nat → Prop
  | start : Visits y y (Uint.add (y / 2) 1)
  | step {z x : Nat} : Visits y z x → x < z → Visits y x (Uint.add (y / x) x / 2)

theorem Visits.nearing {y z x : Nat} (hy : y < Uint.size) (hbig : 3 < y) (h : Visits y z x) :
    Nearing y z x := by
  induction h with
  | start => exact (Nearing.start hy hbig).2
  | step _ _ ih => exact (ih.step hy (by omega)).2.2

/-- The loop returns at the first visit whose test fails. -/
theorem Visits.stop {y z x r : Nat} (h : Visits y z x) (hloop : sqrtLoop y z x = .ok r) :
    ∃ x', Visits y r x' ∧ r ≤ x' := by
  induction z using Nat.strong_induction_on generalizing x with
  | _ z ih =>
    rw [sqrtLoop] at hloop
    by_cases hlt : x < z
    · rw [if_pos hlt, bind_eq_ok] at hloop
      obtain ⟨q, hq, hrest⟩ := hloop
      obtain ⟨-, rfl⟩ := Uint.div_eq_ok.mp hq
      exact ih x hlt (h.step hlt) hrest
    · rw [if_neg hlt] at hloop
      cases hloop
      exact ⟨x, h, Nat.le_of_not_lt hlt⟩

/-- On every word the root is the floor of the real one, and each operation on the way to it
is exact: the loop's test is made on the visited values only, of which the root is the last. -/
theorem sqrt_floor (y : Fin Uint.size) : ∃ z, sqrt y = .ok z ∧ z * z ≤ y ∧
    (y : Nat) < (z + 1) * (z + 1) ∧
    (3 < (y : Nat) → (y : Nat) / 2 + 1 < Uint.size ∧ (∃ x, Visits y z x ∧ z ≤ x) ∧
      ∀ w x, Visits y w x → x < w → x ≠ 0 ∧ (y : Nat) / x + x < Uint.size) := by
  obtain ⟨y, hy⟩ := y
  refine ⟨Nat.sqrt y, sqrt_eq hy, Nat.sqrt_le y, Nat.lt_succ_sqrt y, fun hbig => ?_⟩
  change 3 < y at hbig
  have hpos : 0 < y := by omega
  obtain ⟨hfirst, hnearing⟩ := Nearing.start hy hbig
  refine ⟨hfirst, Visits.start.stop (sqrtLoop_eq hy hpos hnearing), fun w x hvisit hlt => ?_⟩
  obtain ⟨hx, hsum, -⟩ := (hvisit.nearing hy hbig).step hy hpos
  exact ⟨hx, hsum⟩

end Math

namespace UQ112x112

def encode (y : Nat) : Nat := (y * 2 ^ 112) % 2 ^ 224

def uqdiv (x y : Nat) : Except String Nat := Uint.div x y

end UQ112x112

end ArkSwap
