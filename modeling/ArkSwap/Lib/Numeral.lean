import ArkSwap.Lib.Decimal
import Mathlib.Algebra.Order.Floor.Ring
import Mathlib.Data.Rat.Floor
import Mathlib.Tactic.FieldSimp
import Mathlib.Tactic.IntervalCases

/-! Decimal numerals of rational numbers: rounding to a number of decimals, the text of a
whole number of units of the last one, and reading such texts. -/

namespace Numeral

open Decimal

/-- The units of `10 ^ (-d)` in the size of a number, to the nearest and halves up. -/
def units (r : ℚ) (d : Nat) : Nat := ⌊|r| * 10 ^ d + 1 / 2⌋.toNat

def ofUnits (negative : Bool) (n d : Nat) : ℚ :=
  if negative = true then -((n : ℚ) / 10 ^ d) else (n : ℚ) / 10 ^ d

/-- Rounded to a number of decimals, halves away from zero. -/
def rounded (r : ℚ) (d : Nat) : ℚ := ofUnits (decide (r < 0)) (units r d) d

def signed (negative : Bool) (t : List Char) : List Char := if negative = true then '-' :: t else t

/-- The last decimal digits of a number. -/
def lastDigits : Nat → Nat → List Char
  | 0, _ => []
  | k + 1, n => lastDigits k (n / 10) ++ [Nat.digitChar (n % 10)]

/-- A number of units of `10 ^ (-d)`, with all of the `d` decimals. -/
def fixed (negative : Bool) (n d : Nat) : List Char :=
  signed negative (spell (Nat.toDigits 10 (n / 10 ^ d)) (lastDigits d n))

def readUnsigned (t : List Char) : Option ℚ :=
  if IsDigits (splitPoint t).1 ∧ IsDigits (splitPoint t).2 ∧ (splitPoint t).1 ++ (splitPoint t).2 ≠ [] ∧
      (t = (splitPoint t).1 ∨ t = (splitPoint t).1 ++ '.' :: (splitPoint t).2) then
    some (value (splitPoint t).1 + value (splitPoint t).2 / 10 ^ (splitPoint t).2.length)
  else none

/-- The value of a decimal text, which may have a sign. -/
def read : List Char → Option ℚ
  | '-' :: t => (readUnsigned t).map fun r => -r
  | '+' :: t => readUnsigned t
  | t => readUnsigned t

/-- A numeral of a value, with no zero at the end of its fraction and no point without one. -/
def IsNumeral (t : List Char) (r : ℚ) : Prop :=
  ∃ negative whole fraction n d, IsDigits whole ∧ IsDigits fraction ∧ whole ≠ [] ∧
    fraction.getLast? ≠ some '0' ∧ t = signed negative (spell whole fraction) ∧
    Stands whole fraction n d ∧ r = ofUnits negative n d

theorem mem_signed {negative : Bool} {t : List Char} {c : Char} (h : c ∈ signed negative t) :
    c = '-' ∨ c ∈ t := by
  rw [signed] at h
  split at h
  · exact List.mem_cons.mp h
  · exact .inr h

theorem signed_inj {negative negative' : Bool} {t : List Char} :
    signed negative t = signed negative' t ↔ negative = negative' := by
  constructor
  · intro h
    have hlength := congrArg List.length h
    cases negative <;> cases negative' <;> simp [signed] at hlength ⊢
  · rintro rfl
    rfl

section Digits

theorem digitChar_isDigit {n : Nat} (h : n < 10) : (Nat.digitChar n).isDigit = true := by
  interval_cases n <;> rfl

theorem value_digitChar {n : Nat} (h : n < 10) : value [Nat.digitChar n] = n := by
  interval_cases n <;> rfl

theorem length_lastDigits (k n : Nat) : (lastDigits k n).length = k := by
  induction k generalizing n with
  | zero => rfl
  | succ k ih => rw [lastDigits, List.length_append, ih, List.length_singleton]

theorem isDigits_lastDigits (k n : Nat) : IsDigits (lastDigits k n) := by
  induction k generalizing n with
  | zero => exact fun _ hc => by cases hc
  | succ k ih =>
    refine (ih (n / 10)).append fun c hc => ?_
    rw [List.mem_singleton.mp hc]
    exact digitChar_isDigit (Nat.mod_lt n (by decide))

theorem value_lastDigits (k n : Nat) : value (lastDigits k n) = n % 10 ^ k := by
  induction k generalizing n with
  | zero => rw [Nat.pow_zero, Nat.mod_one]; rfl
  | succ k ih =>
    rw [lastDigits, value_append, ih, value_digitChar (Nat.mod_lt n (by decide)), List.length_singleton,
      Nat.pow_one, Nat.pow_succ', Nat.mod_mul]
    omega

theorem stands_lastDigits (n d : Nat) :
    Stands (Nat.toDigits 10 (n / 10 ^ d)) (lastDigits d n) n d := by
  rw [Stands, value_numeral, length_lastDigits, value_lastDigits, Nat.div_add_mod']

theorem getLast?_trimZeros (t : List Char) : (trimZeros t).getLast? ≠ some '0' := by
  intro h
  have hne : trimZeros t ≠ [] := by
    intro hnil
    rw [hnil] at h
    cases h
  rw [List.getLast?_eq_some_getLast hne, Option.some.injEq] at h
  exact List.rdropWhile_last_not _ _ hne (beq_iff_eq.mpr h)

end Digits

section Rounding

variable {r : ℚ} {negative : Bool} {n d : Nat}

theorem ten_pow_pos (d : Nat) : (0 : ℚ) < 10 ^ d := pow_pos (by norm_num) d

theorem abs_ofUnits (negative : Bool) (n d : Nat) : |ofUnits negative n d| = n / 10 ^ d := by
  have hnonneg : (0 : ℚ) ≤ n / 10 ^ d := div_nonneg (Nat.cast_nonneg n) (ten_pow_pos d).le
  rw [ofUnits]
  split
  · rw [abs_neg, abs_of_nonneg hnonneg]
  · exact abs_of_nonneg hnonneg

theorem floor_half (n : Nat) : ⌊(n : ℚ) + 1 / 2⌋ = n := by
  rw [Int.floor_eq_iff]
  constructor <;> push_cast <;> linarith

theorem units_ofUnits (negative : Bool) (n d : Nat) : units (ofUnits negative n d) d = n := by
  rw [units, abs_ofUnits, div_mul_cancel₀ _ (ten_pow_pos d).ne', floor_half, Int.toNat_natCast]

theorem ofUnits_eq_zero : ofUnits negative n d = 0 ↔ n = 0 := by
  rw [← abs_eq_zero, abs_ofUnits, div_eq_zero_iff, Nat.cast_eq_zero]
  simp [(ten_pow_pos d).ne']

theorem ofUnits_neg : ofUnits negative n d < 0 ↔ negative = true ∧ n ≠ 0 := by
  have hnonneg : (0 : ℚ) ≤ n / 10 ^ d := div_nonneg (Nat.cast_nonneg n) (ten_pow_pos d).le
  have hzero : ofUnits negative n d = 0 ↔ n = 0 := ofUnits_eq_zero
  rcases negative with _ | _
  · rw [ofUnits, if_neg Bool.false_ne_true]
    exact ⟨fun h => absurd h (not_lt.mpr hnonneg), fun h => absurd h.1 Bool.false_ne_true⟩
  · rw [Ne, ← hzero, lt_iff_le_and_ne, ofUnits, if_pos rfl, neg_nonpos]
    exact ⟨fun h => ⟨rfl, h.2⟩, fun h => ⟨hnonneg, h.2⟩⟩

theorem rounded_eq_zero : rounded r d = 0 ↔ units r d = 0 := ofUnits_eq_zero

theorem rounded_neg : rounded r d < 0 ↔ r < 0 ∧ rounded r d ≠ 0 := by
  rw [Ne, rounded_eq_zero, rounded, ofUnits_neg, decide_eq_true_eq]

theorem units_rounded (r : ℚ) (d : Nat) : units (rounded r d) d = units r d := units_ofUnits _ _ _

theorem cast_units_le (r : ℚ) (d : Nat) : (units r d : ℚ) ≤ |r| * 10 ^ d + 1 / 2 := by
  have hnonneg : (0 : ℚ) ≤ |r| * 10 ^ d + 1 / 2 :=
    add_nonneg (mul_nonneg (abs_nonneg r) (ten_pow_pos d).le) (by norm_num)
  have hcast : ((units r d : ℤ) : ℚ) = ⌊|r| * 10 ^ d + 1 / 2⌋ := by
    rw [units, Int.toNat_of_nonneg (Int.floor_nonneg.mpr hnonneg)]
  rw [← Int.cast_natCast, hcast]
  exact Int.floor_le _

theorem abs_rounded_le (r : ℚ) (d : Nat) : |rounded r d| ≤ |r| + 1 / 2 / 10 ^ d := by
  rw [rounded, abs_ofUnits, div_le_iff₀ (ten_pow_pos d), add_mul, div_mul_cancel₀ _ (ten_pow_pos d).ne']
  exact cast_units_le r d

/-- A whole number of units is not rounded. -/
theorem rounded_of_int (h : ∃ m : ℤ, r * 10 ^ d = m) : rounded r d = r := by
  obtain ⟨m, hm⟩ := h
  have habs : |r| * 10 ^ d = (m.natAbs : ℚ) := by
    rw [← abs_of_pos (ten_pow_pos d), ← abs_mul, hm, Nat.cast_natAbs, Int.cast_abs]
  have hunits : units r d = m.natAbs := by
    rw [units, habs, floor_half, Int.toNat_natCast]
  have hsize : (m.natAbs : ℚ) / 10 ^ d = |r| := by
    rw [← habs, mul_div_cancel_right₀ _ (ten_pow_pos d).ne']
  rw [rounded, ofUnits, hunits, hsize]
  by_cases hr : r < 0
  · rw [if_pos (decide_eq_true hr), abs_of_neg hr, neg_neg]
  · rw [if_neg (by simpa using hr), abs_of_nonneg (not_lt.mp hr)]

theorem rounded_rounded (r : ℚ) (d : Nat) : rounded (rounded r d) d = rounded r d := by
  apply rounded_of_int
  rw [rounded, ofUnits]
  split
  · exact ⟨-units r d, by rw [neg_mul, div_mul_cancel₀ _ (ten_pow_pos d).ne']; push_cast; rfl⟩
  · exact ⟨units r d, by rw [div_mul_cancel₀ _ (ten_pow_pos d).ne']; rfl⟩

end Rounding

section Reading

variable {t whole fraction : List Char} {negative : Bool} {n d : Nat}

theorem cast_stands (h : Stands whole fraction n d) :
    (value whole : ℚ) + value fraction / 10 ^ fraction.length = n / 10 ^ d := by
  have hcast : ((value whole : ℚ) * 10 ^ fraction.length + value fraction) * 10 ^ d =
      n * 10 ^ fraction.length := by exact_mod_cast h
  have hd := (ten_pow_pos d).ne'
  have hf := (ten_pow_pos fraction.length).ne'
  rw [eq_div_iff hd, ← mul_right_cancel_iff_of_pos (ten_pow_pos fraction.length), ← hcast]
  field_simp

theorem readUnsigned_denotes (h : Decimal.Denotes t n d) : readUnsigned t = some ((n : ℚ) / 10 ^ d) := by
  obtain ⟨whole, fraction, hw, hf, hne, rfl, hstands⟩ := h
  have hparts : spell whole fraction = whole ∨ spell whole fraction = whole ++ '.' :: fraction := by
    rw [spell]
    split
    · exact .inl rfl
    · exact .inr rfl
  rw [readUnsigned, splitPoint_spell hw hf, if_pos ⟨hw, hf, fun h => hne (List.append_eq_nil_iff.mp h).1,
    hparts⟩, cast_stands hstands]

theorem read_signed (h : Decimal.Denotes t n d) : read (signed negative t) = some (ofUnits negative n d) := by
  have hread := readUnsigned_denotes h
  rw [ofUnits, signed]
  rcases negative with _ | _
  · rw [if_neg Bool.false_ne_true, if_neg Bool.false_ne_true]
    obtain ⟨whole, fraction, hw, -, hne, ht, -⟩ := h
    obtain ⟨c, rest, rfl⟩ := List.exists_cons_of_ne_nil hne
    have hc := hw c List.mem_cons_self
    have hhead : ∃ rest, t = c :: rest := by
      rw [ht, spell]
      split
      · exact ⟨_, rfl⟩
      · exact ⟨_, rfl⟩
    obtain ⟨rest, rfl⟩ := hhead
    unfold read
    split
    · rename_i heq
      cases heq
      cases hc
    · rename_i heq
      cases heq
      cases hc
    · exact hread
  · rw [if_pos rfl, if_pos rfl, read, hread, Option.map_some]

theorem read_fixed (negative : Bool) (n d : Nat) :
    read (fixed negative n d) = some (ofUnits negative n d) := by
  refine read_signed ⟨_, _, isDigits_numeral _, isDigits_lastDigits d n, ?_, rfl, stands_lastDigits n d⟩
  exact Nat.toDigits_ne_nil

end Reading

end Numeral
