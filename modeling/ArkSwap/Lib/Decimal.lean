import Mathlib.Algebra.Order.Ring.Nat
import Mathlib.Data.List.DropRight
import Mathlib.Tactic.Linarith
import Mathlib.Tactic.Ring

/-! Decimal texts: digits and their value, whole numbers grouped in thousands, and
texts with a fraction as exact multiples of a negative power of ten. -/

namespace Decimal

def value (t : List Char) : Nat := Nat.ofDigitChars 10 t 0

def IsDigits (t : List Char) : Prop := ∀ c ∈ t, c.isDigit = true

instance (t : List Char) : Decidable (IsDigits t) := List.decidableBAll _ _

def trimZeros (t : List Char) : List Char := t.rdropWhile (· == '0')

def groupReversed : List Char → List Char
  | a :: b :: c :: d :: rest => a :: b :: c :: ',' :: groupReversed (d :: rest)
  | t => t

/-- A comma before every third digit from the right. -/
def groupThousands (t : List Char) : List Char := (groupReversed t.reverse).reverse

/-- A whole part and a fraction, which is left out when it is empty. -/
def spell (whole fraction : List Char) : List Char :=
  if fraction = [] then whole else whole ++ '.' :: fraction

/-- The part before the first point, and the one between it and the next. -/
def splitPoint (t : List Char) : List Char × List Char :=
  (t.takeWhile (· ≠ '.'), (t.dropWhile (· ≠ '.')).tail.takeWhile (· ≠ '.'))

/-- Rounded down to a multiple of `10 ^ (d - m)`: to `m` of `d` decimals. -/
def roundDown (n d m : Nat) : Nat := n / 10 ^ (d - m) * 10 ^ (d - m)

/-- The two parts of a text for exactly `n` units of `10 ^ (-d)`. -/
def Stands (whole fraction : List Char) (n d : Nat) : Prop :=
  (value whole * 10 ^ fraction.length + value fraction) * 10 ^ d = n * 10 ^ fraction.length

def Denotes (t : List Char) (n d : Nat) : Prop :=
  ∃ whole fraction, IsDigits whole ∧ IsDigits fraction ∧ whole ≠ [] ∧ t = spell whole fraction ∧
    Stands whole fraction n d

section Digits

variable {s t whole fraction : List Char} {c : Char} {n d k : Nat}

theorem IsDigits.append (hs : IsDigits s) (ht : IsDigits t) : IsDigits (s ++ t) := fun c hc =>
  (List.mem_append.mp hc).elim (hs c) (ht c)

theorem IsDigits.of_sublist (ht : IsDigits t) (h : s.Sublist t) : IsDigits s := fun c hc =>
  ht c (h.subset hc)

theorem isDigits_numeral (n : Nat) : IsDigits (Nat.toDigits 10 n) := fun _ hc =>
  Nat.isDigit_of_mem_toDigits (by decide) (by decide) hc

theorem value_numeral (n : Nat) : value (Nat.toDigits 10 n) = n := Nat.ofDigitChars_ten_toDigits

theorem value_append (s t : List Char) : value (s ++ t) = value s * 10 ^ t.length + value t := by
  rw [value, Nat.ofDigitChars_append, Nat.ofDigitChars_eq_ofDigitChars_zero, Nat.mul_comm]
  rfl

theorem value_singleton (c : Char) : value [c] = c.toNat - '0'.toNat := by
  rw [value, Nat.ofDigitChars_cons, Nat.ofDigitChars_nil, Nat.mul_zero, Nat.zero_add]

theorem value_cons (c : Char) (t : List Char) :
    value (c :: t) = (c.toNat - '0'.toNat) * 10 ^ t.length + value t := by
  rw [← value_singleton, ← value_append, List.singleton_append]

theorem digit_le (hc : c.isDigit = true) : c.toNat - '0'.toNat ≤ 9 := by
  simp only [Char.isDigit, Bool.and_eq_true, decide_eq_true_eq, UInt32.le_iff_toNat_le] at hc
  have h := hc.2
  have hnine : '9'.val.toNat = 57 := rfl
  have hzero : '0'.toNat = 48 := rfl
  have hc : c.toNat = c.val.toNat := rfl
  omega

theorem value_lt (h : IsDigits t) : value t < 10 ^ t.length := by
  induction t with
  | nil => decide
  | cons c t ih =>
    have hc := digit_le (h c List.mem_cons_self)
    have ht := ih fun x hx => h x (List.mem_cons_of_mem c hx)
    rw [value_cons, List.length_cons, Nat.pow_succ]
    have hle : (c.toNat - '0'.toNat) * 10 ^ t.length ≤ 9 * 10 ^ t.length := Nat.mul_le_mul_right _ hc
    omega

theorem value_replicate (k : Nat) : value (List.replicate k '0') = 0 := by
  rw [value, Nat.ofDigitChars_replicate_zero, Nat.mul_zero]

theorem trimZeros_sublist (t : List Char) : (trimZeros t).Sublist t :=
  (List.rdropWhile_prefix (· == '0') t).sublist

/-- Zeros at the end of a fraction only scale it. -/
theorem value_trimZeros (t : List Char) :
    value t = value (trimZeros t) * 10 ^ (t.length - (trimZeros t).length) := by
  induction t using List.reverseRecOn with
  | nil => rfl
  | append_singleton t c ih =>
    have hle := (trimZeros_sublist t).length_le
    unfold trimZeros at ih hle ⊢
    rw [List.rdropWhile_concat]
    split
    · rename_i hc
      obtain rfl : c = '0' := by simpa using hc
      have hzero : value ['0'] = 0 := by decide
      rw [value_append, hzero, ih, List.length_append, List.length_singleton, Nat.add_zero,
        Nat.mul_assoc, ← Nat.pow_add, Nat.sub_add_comm hle]
    · rw [Nat.sub_self, Nat.pow_zero, Nat.mul_one]

end Digits

section Grouping

variable {t : List Char}

theorem groupReversed_short {r : List Char} (h : r.length ≤ 3) : groupReversed r = r := by
  rcases r with _ | ⟨a, _ | ⟨b, _ | ⟨c, _ | ⟨d, rest⟩⟩⟩⟩
  · rfl
  · rfl
  · rfl
  · rfl
  · simp only [List.length_cons] at h
    omega

theorem comma_mem_groupReversed {r : List Char} (h : 4 ≤ r.length) : ',' ∈ groupReversed r := by
  rcases r with _ | ⟨a, _ | ⟨b, _ | ⟨c, _ | ⟨d, rest⟩⟩⟩⟩
  · simp at h
  · simp at h
  · simp at h
  · simp at h
  · simp [groupReversed]

theorem groupThousands_short (h : t.length ≤ 3) : groupThousands t = t := by
  rw [groupThousands, groupReversed_short (by rwa [List.length_reverse]), List.reverse_reverse]

theorem comma_mem_groupThousands (h : 4 ≤ t.length) : ',' ∈ groupThousands t := by
  rw [groupThousands, List.mem_reverse]
  exact comma_mem_groupReversed (by rwa [List.length_reverse])

end Grouping

section Points

variable {t whole fraction : List Char}

theorem IsDigits.ne_point (h : IsDigits t) : ∀ c ∈ t, (decide (c ≠ '.')) = true := by
  intro c hc
  rw [decide_eq_true_eq]
  rintro rfl
  exact absurd (h '.' hc) (by decide)

theorem splitPoint_digits (h : IsDigits t) : splitPoint t = (t, []) := by
  rw [splitPoint, List.takeWhile_eq_self_iff.mpr h.ne_point, List.dropWhile_eq_nil_iff.mpr h.ne_point]
  rfl

theorem splitPoint_append (hw : IsDigits whole) (hf : IsDigits fraction) :
    splitPoint (whole ++ '.' :: fraction) = (whole, fraction) := by
  have hpoint : decide ('.' ≠ '.') = false := by decide
  rw [splitPoint, List.takeWhile_append_of_pos hw.ne_point, List.dropWhile_append_of_pos hw.ne_point,
    List.takeWhile_cons_of_neg (by decide), List.dropWhile_cons_of_neg (by decide), List.append_nil,
    List.tail_cons, List.takeWhile_eq_self_iff.mpr hf.ne_point]

theorem splitPoint_spell (hw : IsDigits whole) (hf : IsDigits fraction) :
    splitPoint (spell whole fraction) = (whole, fraction) := by
  rw [spell]
  split
  · rename_i hempty
    rw [splitPoint_digits hw, hempty]
  · exact splitPoint_append hw hf

end Points

section Rounding

variable {whole fraction : List Char} {n d m : Nat}

theorem div_mul_pow (n d m : Nat) : n * 10 ^ m / 10 ^ d * 10 ^ d = roundDown n d m * 10 ^ m := by
  rw [roundDown]
  rcases Nat.le_total d m with hle | hle
  · have hdvd : 10 ^ d ∣ n * 10 ^ m := Dvd.dvd.mul_left (Nat.pow_dvd_pow 10 hle) n
    rw [Nat.div_mul_cancel hdvd, Nat.sub_eq_zero_of_le hle, Nat.pow_zero, Nat.div_one, Nat.mul_one]
  · obtain ⟨e, rfl⟩ := Nat.exists_eq_add_of_le hle
    have hpos : 0 < 10 ^ m := Nat.pow_pos (by decide)
    rw [Nat.add_sub_cancel_left, Nat.pow_add, Nat.mul_comm (10 ^ m),
      Nat.mul_div_mul_right _ _ hpos, Nat.mul_assoc]

theorem div_eq_of_scaled {q r b c n : Nat} (hr : r < b) (hc : 0 < c)
    (h : (q * b + r) * c = n * b) : n / c = q := by
  have hb : 0 < b := Nat.zero_lt_of_lt hr
  rw [Nat.div_eq_iff hc]
  constructor
  · refine Nat.le_of_mul_le_mul_right ?_ hb
    calc q * c * b = q * b * c := by ring
      _ ≤ (q * b + r) * c := Nat.mul_le_mul_right c (Nat.le_add_right _ _)
      _ = n * b := h
  · have hlt : n * b < (q + 1) * c * b := by
      calc n * b = (q * b + r) * c := h.symm
        _ < (q * b + b) * c := Nat.mul_lt_mul_of_pos_right (by omega) hc
        _ = (q + 1) * c * b := by ring
    have hlt' := Nat.lt_of_mul_lt_mul_right hlt
    rw [Nat.add_mul, Nat.one_mul] at hlt'
    omega

theorem roundDown_of_dvd (h : 10 ^ (d - m) ∣ n) : roundDown n d m = n := Nat.div_mul_cancel h

theorem roundDown_self (n d : Nat) : roundDown n d d = n := by
  rw [roundDown, Nat.sub_self, Nat.pow_zero, Nat.div_one, Nat.mul_one]

/-- Digits cut off round down. -/
theorem Stands.take (hf : IsDigits fraction) (h : Stands whole fraction n d) (m : Nat) :
    Stands whole (fraction.take m) (roundDown n d m) d := by
  unfold Stands at h ⊢
  have hsplit := List.take_append_drop m fraction
  have hrest := value_lt (hf.of_sublist (List.drop_sublist m fraction))
  have hpos : 0 < 10 ^ d := Nat.pow_pos (by decide)
  have hlength : fraction.length = (fraction.take m).length + (fraction.drop m).length := by
    rw [← List.length_append, hsplit]
  have hvalue : value fraction =
      value (fraction.take m) * 10 ^ (fraction.drop m).length + value (fraction.drop m) := by
    rw [← value_append, hsplit]
  have hscaled : ((value whole * 10 ^ (fraction.take m).length + value (fraction.take m)) *
      10 ^ (fraction.drop m).length + value (fraction.drop m)) * 10 ^ d =
        n * 10 ^ (fraction.take m).length * 10 ^ (fraction.drop m).length := by
    rw [hlength, hvalue, Nat.pow_add] at h
    linarith only [h]
  have hfloor := div_eq_of_scaled hrest hpos hscaled
  rw [← hfloor, div_mul_pow]
  rcases Nat.lt_or_ge m fraction.length with hlt | hge
  · rw [List.length_take, Nat.min_eq_left hlt.le]
  · -- nothing is cut, and the text already stands for a multiple
    have hnil : value [] = 0 := rfl
    have hwhole : roundDown n d (fraction.take m).length = n := by
      rw [List.drop_eq_nil_of_le hge, List.length_nil, Nat.pow_zero, Nat.mul_one, Nat.mul_one, hnil,
        Nat.add_zero, ← hfloor, div_mul_pow] at hscaled
      exact Nat.eq_of_mul_eq_mul_right (Nat.pow_pos (by decide)) hscaled
    have hle := List.length_take_le m fraction
    have hdvd : 10 ^ (d - m) ∣ n :=
      (Nat.pow_dvd_pow 10 (by omega)).trans (Dvd.intro_left _ hwhole)
    rw [hwhole, roundDown_of_dvd hdvd]

/-- The whole part of a text is the whole part of what it stands for. -/
theorem Stands.whole_eq (hf : IsDigits fraction) (h : Stands whole fraction n d) :
    value whole = n / 10 ^ d := by
  have hcut := h.take hf 0
  have hnil : value [] = 0 := rfl
  rw [Stands, List.take_zero, List.length_nil, Nat.pow_zero, Nat.mul_one, Nat.mul_one, hnil,
    Nat.add_zero, roundDown, Nat.sub_zero] at hcut
  exact Nat.eq_of_mul_eq_mul_right (Nat.pow_pos (by decide)) hcut

theorem Stands.trimmed (h : Stands whole fraction n d) : Stands whole (trimZeros fraction) n d := by
  have hle := (trimZeros_sublist fraction).length_le
  have hzeros := value_trimZeros fraction
  obtain ⟨zeros, hlength⟩ := Nat.exists_eq_add_of_le hle
  rw [hlength, Nat.add_sub_cancel_left] at hzeros
  rw [Stands, hlength, hzeros, Nat.pow_add] at h
  have hpos : 0 < 10 ^ zeros := Nat.pow_pos (by decide)
  refine Nat.eq_of_mul_eq_mul_right hpos ?_
  linarith only [h]

theorem Stands.congr {whole' : List Char} (h : Stands whole fraction n d)
    (hvalue : value whole' = value whole) : Stands whole' fraction n d := by
  rwa [Stands, hvalue]

end Rounding

end Decimal
