import ArkSwap.Lib.Decimal
import ArkSwap.Tokens

/-! The text of an amount: how it is shown, how what is typed is read, and when the
one is read back from the other. -/

namespace ArkSwap.Web

open Checked Decimal

/-- The conversions of viem, both exact. -/
structure Units where
  formatUnits : Int → Nat → Text
  parseUnits : Text → Nat → Except String Int
  format_denotes : ∀ v d : Nat, Denotes (formatUnits v d) v d
  parse_denotes : ∀ {t : Text} {n d : Nat}, Denotes t n d → parseUnits t d = .ok n

/-- `BigInt` of a decimal text, which may have a sign. -/
def bigInt (t : Text) : Except String Int :=
  match trim t with
  | [] => .ok 0
  | '-' :: digits =>
      if digits ≠ [] ∧ digits.all Char.isDigit then .ok (-value digits) else .error "SyntaxError"
  | '+' :: digits =>
      if digits ≠ [] ∧ digits.all Char.isDigit then .ok (value digits) else .error "SyntaxError"
  | digits => if digits.all Char.isDigit then .ok (value digits) else .error "SyntaxError"

/-- `toLocaleString('en-US')` of a whole number. -/
def toLocaleString (n : Int) : Text :=
  (if n < 0 then ['-'] else []) ++ groupThousands (Nat.toDigits 10 n.natAbs)

def formatAmount (units : Units) (v : Int) (decimals maxFractionDigits : Nat) :
    Except String Text := do
  let (whole, fraction) := splitPoint (units.formatUnits v decimals)
  let trimmed := trimZeros (fraction.take maxFractionDigits)
  let grouped := toLocaleString (← bigInt whole)
  return spell grouped trimmed

/-- Digits with at most one point among them: `/^\d*\.?\d*$/`. -/
def isAmount (t : Text) : Bool :=
  match t.dropWhile Char.isDigit with
  | '.' :: rest => rest.all Char.isDigit
  | rest => rest.isEmpty

def parseAmount (units : Units) (input : Text) (decimals : Nat) : Option Int :=
  let trimmed := trim input
  if trimmed = [] ∨ isAmount trimmed = false then none
  else
    match units.parseUnits trimmed decimals with
    | .ok v => if v ≥ 0 then some v else none
    | .error _ => none

/-- What the Max button fills in: of native KASH it leaves one percent behind for gas. -/
def maxAmount (token : Token) (balance : Int) : Int :=
  if token.isNative then (balance * 99).tdiv 100 else balance

def maxText (units : Units) (token : Token) (balance : Int) (decimals : Nat) : Except String Text :=
  formatAmount units (maxAmount token balance) decimals decimals

section Reading

variable {units : Units} {t whole fraction : Text} {c : Char}

theorem isSpace_digit (h : c.isDigit = true) : isSpace c = false := by
  simp only [Char.isDigit, Bool.and_eq_true, decide_eq_true_eq, UInt32.le_iff_toNat_le] at h
  obtain ⟨hlo, hhi⟩ := h
  have hzero : '0'.val.toNat = 48 := rfl
  have hnine : '9'.val.toNat = 57 := rfl
  have hc : c.toNat = c.val.toNat := rfl
  simp only [isSpace, Bool.or_eq_false_iff, decide_eq_false_iff_not, Bool.and_eq_false_iff,
    List.mem_cons, List.not_mem_nil, or_false]
  omega

theorem isAmount_digits (h : IsDigits t) : isAmount t = true := by
  have hrest : t.dropWhile Char.isDigit = [] := List.dropWhile_eq_nil_iff.mpr h
  rw [isAmount, hrest]
  rfl

theorem isAmount_spell (hw : IsDigits whole) (hf : IsDigits fraction) :
    isAmount (spell whole fraction) = true := by
  rw [spell]
  split
  · exact isAmount_digits hw
  · rw [isAmount, List.dropWhile_append_of_pos hw, List.dropWhile_cons_of_neg (by decide)]
    exact List.all_eq_true.mpr hf

/-- An amount has no characters but digits and the point. -/
theorem isAmount_mem (h : isAmount t = true) (hc : c ∈ t) : c.isDigit = true ∨ c = '.' := by
  rw [← List.takeWhile_append_dropWhile (p := Char.isDigit) (l := t), List.mem_append] at hc
  rcases hc with hc | hc
  · exact .inl (List.mem_takeWhile_imp hc)
  · rw [isAmount] at h
    split at h
    · rename_i rest heq
      rw [heq, List.mem_cons] at hc
      exact hc.symm.imp_left (List.all_eq_true.mp h c)
    · rw [List.isEmpty_iff.mp h] at hc
      cases hc

theorem parseAmount_denotes {n d : Nat} (h : Denotes t n d) : parseAmount units t d = some ↑n := by
  have hparse := units.parse_denotes h
  obtain ⟨whole, fraction, hw, hf, hne, rfl, -⟩ := h
  have hchars : ∀ c ∈ spell whole fraction, isSpace c = false := by
    intro c hc
    rcases isAmount_mem (isAmount_spell hw hf) hc with hdigit | rfl
    · exact isSpace_digit hdigit
    · decide
  have hnil : spell whole fraction ≠ [] := by
    rw [spell]
    split
    · exact hne
    · exact List.append_ne_nil_of_left_ne_nil hne _
  rw [parseAmount, trim_eq_self hchars, if_neg (by simp [hnil, isAmount_spell hw hf]), hparse]
  exact if_pos (Int.natCast_nonneg n)

theorem parseAmount_nonneg {d : Nat} {v : Int} (h : parseAmount units t d = some v) : 0 ≤ v := by
  rw [parseAmount] at h
  obtain ⟨-, h⟩ := Option.ite_none_left_eq_some.mp h
  split at h
  · obtain ⟨hv, h⟩ := Option.ite_none_right_eq_some.mp h
    obtain rfl := Option.some.inj h
    exact hv
  · cases h

theorem parseAmount_comma (h : ',' ∈ t) (d : Nat) : parseAmount units t d = none := by
  rw [parseAmount, if_pos]
  right
  by_contra hamount
  rw [Bool.not_eq_false] at hamount
  rcases isAmount_mem hamount (mem_trim (by decide) h) with hc | hc
  · exact absurd hc (by decide)
  · exact absurd hc (by decide)

end Reading

section Showing

variable {units : Units} {whole : Text}

theorem bigInt_digits (hw : IsDigits whole) (hne : whole ≠ []) : bigInt whole = .ok (value whole) := by
  have hall : whole.all Char.isDigit = true := List.all_eq_true.mpr hw
  rw [bigInt, trim_eq_self fun c hc => isSpace_digit (hw c hc)]
  split
  · exact absurd rfl hne
  · exact absurd (hw '-' List.mem_cons_self) (by decide)
  · exact absurd (hw '+' List.mem_cons_self) (by decide)
  · rw [if_pos hall]

theorem toLocaleString_natCast (n : Nat) : toLocaleString n = groupThousands (Nat.toDigits 10 n) := by
  rw [toLocaleString, if_neg (by omega), Int.natAbs_natCast, List.nil_append]

/-- What is shown: the whole part in groups, and the digits that are kept. -/
theorem formatAmount_eq (units : Units) (v d m : Nat) : ∃ fraction, IsDigits fraction ∧
    Stands (Nat.toDigits 10 (v / 10 ^ d)) fraction (roundDown v d m) d ∧
    formatAmount units v d m =
      .ok (spell (groupThousands (Nat.toDigits 10 (v / 10 ^ d))) fraction) := by
  obtain ⟨whole, fraction, hw, hf, hne, hraw, hstands⟩ := units.format_denotes v d
  refine ⟨trimZeros (fraction.take m), ?_, ?_, ?_⟩
  · exact (hf.of_sublist (List.take_sublist m fraction)).of_sublist (trimZeros_sublist _)
  · refine ((hstands.take hf m).trimmed).congr ?_
    rw [value_numeral, hstands.whole_eq hf]
  · rw [formatAmount, hraw, splitPoint_spell hw hf]
    dsimp only
    rw [bigInt_digits hw hne, ok_bind, toLocaleString_natCast, hstands.whole_eq hf]
    rfl

/-- What is shown of an amount is read as the amount rounded down to the digits that
are shown, unless a comma groups its whole part. -/
theorem formatAmount_parseAmount (units : Units) (v d m : Nat) : ∃ text,
    formatAmount units v d m = .ok text ∧
      parseAmount units text d = if v < 1000 * 10 ^ d then some ↑(roundDown v d m) else none := by
  obtain ⟨fraction, hf, hstands, hshown⟩ := formatAmount_eq units v d m
  refine ⟨_, hshown, ?_⟩
  have hlength := Nat.length_toDigits_le_iff (b := 10) (n := v / 10 ^ d) (by decide)
    (by decide : 0 < 3)
  rw [Nat.div_lt_iff_lt_mul (Nat.pow_pos (by decide))] at hlength
  split
  · rename_i hlt
    rw [groupThousands_short (hlength.mpr hlt)]
    exact parseAmount_denotes ⟨_, fraction, isDigits_numeral _, hf, Nat.toDigits_ne_nil, rfl, hstands⟩
  · rename_i hge
    have hcomma := comma_mem_groupThousands (not_le.mp (mt hlength.mp hge))
    refine parseAmount_comma ?_ d
    rw [spell]
    split
    · exact hcomma
    · exact List.mem_append_left _ hcomma

end Showing

/-- What is shown is read as the amount `n`. -/
def ReadsBack (units : Units) (shown : Except String Text) (decimals : Nat) (n : Int) : Prop :=
  ∃ text, shown = .ok text ∧ parseAmount units text decimals = some n

section Exact

variable (units : Units) (token : Token) (v d m : Nat)

theorem formatAmount_readsBack_iff :
    ReadsBack units (formatAmount units v d m) d ↑(roundDown v d m) ↔ v < 1000 * 10 ^ d := by
  obtain ⟨text, hshown, hparsed⟩ := formatAmount_parseAmount units v d m
  constructor
  · rintro ⟨text', hshown', hparsed'⟩
    obtain rfl := Except.ok.inj (hshown.symm.trans hshown')
    by_contra hge
    rw [hparsed, if_neg hge] at hparsed'
    cases hparsed'
  · intro hlt
    exact ⟨text, hshown, hparsed.trans (if_pos hlt)⟩

theorem maxAmount_natCast : maxAmount token v = ↑(if token.isNative then v * 99 / 100 else v) := by
  rw [maxAmount]
  split
  · exact Int.tdiv_eq_ediv_of_nonneg (by omega)
  · rfl

/-- Amounts are read back from what is shown of them exactly below a thousand tokens. -/
theorem shown_readsBack_iff :
    (ReadsBack units (formatAmount units v d d) d v ↔ v < 1000 * 10 ^ d) ∧
    (∀ f : Nat, ReadsBack units (formatAmount units v d f) d ↑(v / 10 ^ (d - f) * 10 ^ (d - f)) ↔
      v < 1000 * 10 ^ d) ∧
    (ReadsBack units (maxText units token v d) d (maxAmount token v) ↔
      maxAmount token v < 1000 * 10 ^ d) := by
  refine ⟨?_, fun f => formatAmount_readsBack_iff units v d f, ?_⟩
  · have hself := formatAmount_readsBack_iff units v d d
    rwa [roundDown_self] at hself
  · have hself := formatAmount_readsBack_iff units (if token.isNative then v * 99 / 100 else v) d d
    rw [roundDown_self, ← maxAmount_natCast] at hself
    rw [maxText, hself, maxAmount_natCast]
    norm_cast

end Exact

section Plain

/-- `formatUnits` of an amount that is not negative: its digits, padded with zeros in
front, with the point before the last `d` of them. -/
def plainFormat (v d : Nat) : Text :=
  let digits := Nat.toDigits 10 v
  let padded := List.replicate (d - digits.length) '0' ++ digits
  let whole := padded.take (padded.length - d)
  spell (if whole = [] then ['0'] else whole) (trimZeros (padded.drop (padded.length - d)))

def plainParse (t : Text) (d : Nat) : Except String Int :=
  if isAmount t then
    let (whole, fraction) := splitPoint t
    .ok ↑((value whole * 10 ^ fraction.length + value fraction) * 10 ^ d / 10 ^ fraction.length)
  else .error "InvalidDecimalNumberError"

theorem plainFormat_denotes (v d : Nat) : Denotes (plainFormat v d) v d := by
  unfold plainFormat
  dsimp only
  set digits := Nat.toDigits 10 v with hdigits
  set padded := List.replicate (d - digits.length) '0' ++ digits with hpadded
  have hall : IsDigits padded := by
    refine IsDigits.append ?_ (isDigits_numeral v)
    intro c hc
    rw [List.eq_of_mem_replicate hc]
    rfl
  have hlength : d ≤ padded.length := by
    rw [hpadded, List.length_append, List.length_replicate]
    omega
  have hdrop : (padded.drop (padded.length - d)).length = d := by
    rw [List.length_drop]
    omega
  have hvalue : value (padded.take (padded.length - d)) * 10 ^ d +
      value (padded.drop (padded.length - d)) = v := by
    have hsplit := value_append (padded.take (padded.length - d)) (padded.drop (padded.length - d))
    rw [hdrop, List.take_append_drop] at hsplit
    rw [← hsplit, hpadded, value_append, value_replicate, Nat.zero_mul, Nat.zero_add, hdigits,
      value_numeral]
  have hstands : Stands (padded.take (padded.length - d)) (padded.drop (padded.length - d)) v d := by
    rw [Stands, hdrop, hvalue]
  refine ⟨_, _, ?_, ?_, ?_, rfl, ?_⟩
  · split
    · decide
    · exact hall.of_sublist (List.take_sublist _ _)
  · exact (hall.of_sublist (List.drop_sublist _ _)).of_sublist (trimZeros_sublist _)
  · split
    · decide
    · assumption
  · refine hstands.trimmed.congr ?_
    split
    · rename_i hempty
      rw [hempty]
      rfl
    · rfl

theorem plainParse_denotes {t : Text} {n d : Nat} (h : Denotes t n d) : plainParse t d = .ok n := by
  obtain ⟨whole, fraction, hw, hf, -, rfl, hstands⟩ := h
  rw [plainParse, if_pos (isAmount_spell hw hf), splitPoint_spell hw hf]
  dsimp only
  rw [hstands, Nat.mul_div_cancel _ (Nat.pow_pos (by decide))]

def plainUnits : Units where
  formatUnits v d := if v < 0 then '-' :: plainFormat v.natAbs d else plainFormat v.natAbs d
  parseUnits := plainParse
  format_denotes v d := by
    rw [if_neg (by omega)]
    exact plainFormat_denotes v d
  parse_denotes := plainParse_denotes

/-- A thousand tokens are shown with a comma, and the form takes that for no amount. -/
theorem thousand_not_readsBack :
    formatAmount plainUnits (1000 * 10 ^ 18) 18 18 = .ok "1,000".toList ∧
    parseAmount plainUnits "1,000".toList 18 = none ∧
    ¬ReadsBack plainUnits (formatAmount plainUnits (1000 * 10 ^ 18) 18 18) 18 (1000 * 10 ^ 18) := by
  have hshown : formatAmount plainUnits (1000 * 10 ^ 18) 18 18 = .ok "1,000".toList := by
    decide +kernel
  have hparsed : parseAmount plainUnits "1,000".toList 18 = none := by decide +kernel
  refine ⟨hshown, hparsed, ?_⟩
  rintro ⟨text, htext, hread⟩
  obtain rfl := Except.ok.inj (hshown.symm.trans htext)
  rw [hparsed] at hread
  cases hread

end Plain

end ArkSwap.Web
