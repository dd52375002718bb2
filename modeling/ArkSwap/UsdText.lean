import ArkSwap.Lib.Numeral
import ArkSwap.Models
import ArkSwap.Sdk

/-! USD values as text: how they are written into a column, read back from it and shown,
and the one kind of value that is shown in another way once it has been stored. -/

namespace ArkSwap.GoInternal

open Numeral

namespace Rendered

/-- `big.Rat.FloatString`; a negative number has its sign even where it rounds to zero. -/
def floatString (r : ℚ) (prec : Nat) : Text := fixed (decide (r < 0)) (units r prec) prec

/-- `TrimRight` of the zeros and `TrimSuffix` of the point, if there is a point. -/
def trimZeros (s : Text) : Text :=
  if '.' ∈ s then
    let s := s.rdropWhile (· == '0')
    if s.getLast? = some '.' then s.dropLast else s
  else s

def formatUSD (r : Option ℚ) : Text :=
  match r with
  | none => ['0']
  | some r => trimZeros (floatString r usdScale)

def formatAmount (r : Option ℚ) (decimals : Int) : Text :=
  match r with
  | none => ['0']
  | some r => trimZeros (floatString r (if decimals < 0 then 0 else decimals.toNat))

def numPtr (v : Option ℚ) : Option Text := v.map fun r => floatString r usdScale

/-- `big.Rat.SetString`; what else than decimal texts it reads is left open. -/
def setString (other : Text → Option ℚ) (s : Text) : Option ℚ := (read s).or (other s)

def ratFrom (other : Text → Option ℚ) (s : Option Text) : Option ℚ :=
  match s with
  | none => none
  | some s => if s = [] then none else setString other s

/-- A text that is stored as `NUMERIC(38, 18)`: rounded to the scale, refused when too large. -/
def numericIn (s : Text) : Option ℚ :=
  (read s).bind fun v => if |rounded v usdScale| < 10 ^ 20 then some (rounded v usdScale) else none

/-- The text of a stored value, all of its decimals; there is no negative zero. -/
def numericOut (v : ℚ) : Text := fixed (decide (v < 0)) (units v usdScale) usdScale

/-- A value that is written into a column and read from it. -/
def readBack (other : Text → Option ℚ) (v : Option ℚ) : Option ℚ :=
  ratFrom other (((numPtr v).bind numericIn).map numericOut)

variable {r v : ℚ} {whole fraction s : Text} {other : Text → Option ℚ}

theorem floatString_value (r : ℚ) (scale : Nat) : GoInternal.floatString r scale = rounded r scale := by
  have hcast : ∀ x : ℚ, 0 ≤ x → (⌊x⌋ : ℚ) = (⌊x⌋.toNat : ℚ) := by
    intro x hx
    rw [← Int.cast_natCast, Int.toNat_of_nonneg (Int.floor_nonneg.mpr hx)]
  have hscaled : (0 : ℚ) ≤ |r| * 10 ^ scale + 1 / 2 :=
    add_nonneg (mul_nonneg (abs_nonneg r) (ten_pow_pos scale).le) (by norm_num)
  have hunits := hcast _ hscaled
  rw [GoInternal.floatString, rounded, ofUnits, units]
  by_cases hr : 0 ≤ r
  · rw [abs_of_nonneg hr] at hunits ⊢
    rw [if_pos hr, if_neg (by simpa using hr), hunits]
  · have hneg := not_le.mp hr
    rw [abs_of_neg hneg] at hunits ⊢
    rw [if_neg hr, if_pos (decide_eq_true hneg), hunits]

theorem rdropWhile_point (whole fraction : Text) :
    (whole ++ '.' :: fraction).rdropWhile (· == '0') = whole ++ '.' :: Decimal.trimZeros fraction := by
  induction fraction using List.reverseRecOn with
  | nil => exact List.rdropWhile_concat_neg _ _ _ (by decide)
  | append_singleton fraction c ih =>
    rw [← List.cons_append, ← List.append_assoc, Decimal.trimZeros, List.rdropWhile_concat,
      List.rdropWhile_concat]
    split
    · exact ih
    · rw [List.append_assoc, List.cons_append]

theorem trimZeros_point (hf : Decimal.IsDigits fraction) (whole : Text) :
    trimZeros (whole ++ '.' :: fraction) = Decimal.spell whole (Decimal.trimZeros fraction) := by
  have hpoint : '.' ∈ whole ++ '.' :: fraction := List.mem_append_right _ List.mem_cons_self
  simp only [trimZeros, hpoint, if_true, rdropWhile_point]
  rcases List.eq_nil_or_concat (Decimal.trimZeros fraction) with hnil | ⟨init, c, hlast⟩
  · rw [hnil, Decimal.spell, if_pos rfl, List.getLast?_concat, if_pos rfl, List.dropLast_concat]
  · have hne : Decimal.trimZeros fraction ≠ [] := by
      rw [hlast, List.concat_eq_append]
      exact List.append_ne_nil_of_right_ne_nil init (List.cons_ne_nil c [])
    have hc : c ≠ '.' := by
      rintro rfl
      have hmem : '.' ∈ Decimal.trimZeros fraction := by
        rw [hlast, List.concat_eq_append]
        exact List.mem_append_right _ List.mem_cons_self
      exact absurd (hf.of_sublist (Decimal.trimZeros_sublist fraction) '.' hmem) (by decide)
    have hend : (whole ++ '.' :: Decimal.trimZeros fraction).getLast? = some c := by
      rw [hlast, List.concat_eq_append, ← List.cons_append, ← List.append_assoc, List.getLast?_concat]
    rw [Decimal.spell, if_neg hne, hend, if_neg (by simpa using hc)]

/-- What is shown of a number of units: the sign, the whole part, and the decimals without
the zeros at their end. -/
theorem trimZeros_fixed (negative : Bool) (n d : Nat) : trimZeros (fixed negative n d) =
    signed negative (Decimal.spell (Nat.toDigits 10 (n / 10 ^ d)) (Decimal.trimZeros (lastDigits d n))) := by
  have hdigits := isDigits_lastDigits d n
  have hwhole := Decimal.isDigits_numeral (n / 10 ^ d)
  rw [fixed]
  by_cases hnil : lastDigits d n = []
  · have hpoint : '.' ∉ signed negative (Nat.toDigits 10 (n / 10 ^ d)) := by
      intro hmem
      rcases mem_signed hmem with hminus | hdigit
      · cases hminus
      · exact absurd (hwhole '.' hdigit) (by decide)
    rw [hnil, Decimal.spell, if_pos rfl, trimZeros, if_neg hpoint]
    rfl
  · rw [Decimal.spell, if_neg hnil, signed, signed]
    rcases negative with _ | _
    · rw [if_neg Bool.false_ne_true, if_neg Bool.false_ne_true, trimZeros_point hdigits]
    · rw [if_pos rfl, if_pos rfl, ← List.cons_append, trimZeros_point hdigits, Decimal.spell,
        Decimal.spell]
      split <;> rfl

theorem trimZeros_isNumeral (r : ℚ) (d : Nat) : IsNumeral (trimZeros (floatString r d)) (rounded r d) := by
  have hdigits := isDigits_lastDigits d (units r d)
  exact ⟨_, _, _, units r d, d, Decimal.isDigits_numeral _,
    hdigits.of_sublist (Decimal.trimZeros_sublist _), Nat.toDigits_ne_nil, getLast?_trimZeros _,
    trimZeros_fixed _ _ _, (stands_lastDigits _ _).trimmed, rfl⟩

theorem ratFrom_of_read (h : read s = some v) : ratFrom other (some s) = some v := by
  have hne : s ≠ [] := by
    rintro rfl
    cases h
  rw [ratFrom, if_neg hne, setString, h, Option.some_or]

theorem numericIn_numPtr (h : |r| < 10 ^ 20 - 1) :
    (numPtr (some r)).bind numericIn = GoInternal.numPtr (some r) := by
  have hsize : |rounded r usdScale| < 10 ^ 20 := by
    have hle := abs_rounded_le r usdScale
    have hsmall : (1 : ℚ) / 2 / 10 ^ usdScale ≤ 1 := by norm_num [usdScale]
    linarith
  have hread : read (floatString r usdScale) = some (rounded r usdScale) := read_fixed _ _ _
  rw [numPtr, Option.map_some, Option.bind_some, numericIn, hread, Option.bind_some, rounded_rounded,
    if_pos hsize, GoInternal.numPtr, Option.map_some, floatString_value]

theorem readBack_eq (h : |r| < 10 ^ 20 - 1) : readBack other (some r) = some (rounded r usdScale) := by
  have hread : read (numericOut (rounded r usdScale)) = some (rounded (rounded r usdScale) usdScale) :=
    read_fixed _ _ _
  rw [rounded_rounded] at hread
  rw [readBack, numericIn_numPtr h, GoInternal.numPtr, Option.map_some, floatString_value, Option.map_some,
    ratFrom_of_read hread]

theorem formatUSD_rounded_iff (r : ℚ) : formatUSD (some (rounded r usdScale)) = formatUSD (some r) ↔
    ¬(r < 0 ∧ rounded r usdScale = 0) := by
  have heq : ∀ v : ℚ, formatUSD (some v) = signed (decide (v < 0)) (Decimal.spell
      (Nat.toDigits 10 (units v usdScale / 10 ^ usdScale))
      (Decimal.trimZeros (lastDigits usdScale (units v usdScale)))) := fun v => trimZeros_fixed _ _ _
  rw [heq, heq, units_rounded, signed_inj, decide_eq_decide, rounded_neg]
  tauto

/-- A value that has room in the column is shown rounded to 18 decimals, read back rounded
once, and shown the same as before but for a negative one that rounds to zero. -/
theorem usd_survives (other : Text → Option ℚ) (h : |r| < 10 ^ 20 - 1) :
    IsNumeral (formatUSD (some r)) (GoInternal.floatString r usdScale) ∧
      readBack other (some r) = some (GoInternal.floatString r usdScale) ∧
      ((∃ m : ℤ, r * 10 ^ usdScale = m) → GoInternal.floatString r usdScale = r) ∧
      (formatUSD (readBack other (some r)) = formatUSD (some r) ↔
        ¬(r < 0 ∧ GoInternal.floatString r usdScale = 0)) := by
  rw [readBack_eq h, floatString_value]
  exact ⟨trimZeros_isNumeral r usdScale, rfl, rounded_of_int, formatUSD_rounded_iff r⟩

theorem minus_third_survives :
    formatUSD (readBack (fun _ => none) (some (-1 / 3))) = formatUSD (some (-1 / 3)) :=
  (usd_survives (fun _ => none) (by norm_num [abs_of_neg])).2.2.2.mpr (by decide +kernel)

/-- A negative value that rounds to zero keeps its sign until it has been stored. -/
theorem negative_dust_changes : |(-1 / 10 ^ 19 : ℚ)| < 10 ^ 20 - 1 ∧
    formatUSD (some (-1 / 10 ^ 19)) = ['-', '0'] ∧
    readBack (fun _ => none) (some (-1 / 10 ^ 19)) = some 0 ∧
    formatUSD (readBack (fun _ => none) (some (-1 / 10 ^ 19))) = ['0'] := by
  decide +kernel

end Rendered

end ArkSwap.GoInternal
