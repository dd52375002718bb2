import ArkSwap.Lib.Codes
import ArkSwap.TokenText

/-! What `validString` accepts: texts over the code of characters, which are the encodings
of lists of Unicode scalar values. -/

namespace ArkSwap.GoInternal

open Codes

variable {s t u w : List UInt8} {b b₁ b₂ b₃ : UInt8}

/-- The second byte keeps out overlong forms, surrogates and what is past U+10FFFF. -/
def follows (b b₁ : UInt8) : Bool :=
  if b = 0xe0 then within 0xa0 0xbf b₁
  else if b = 0xed then within 0x80 0x9f b₁
  else if b = 0xf0 then within 0x90 0xbf b₁
  else if b = 0xf4 then within 0x80 0x8f b₁
  else continuation b₁

/-- The bytes of one character. -/
def character : List UInt8 → Bool
  | [b] => b < 0x80
  | [b, b₁] => within 0xc2 0xdf b && continuation b₁
  | [b, b₁, b₂] => within 0xe0 0xef b && follows b b₁ && continuation b₂
  | [b, b₁, b₂, b₃] =>
      within 0xf0 0xf4 b && follows b b₁ && continuation b₂ && continuation b₃
  | _ => false

def characterSize (b : UInt8) : Nat :=
  if b < 0x80 then 1 else if b < 0xe0 then 2 else if b < 0xf0 then 3 else 4

theorem within_iff {lo hi : UInt8} :
    within lo hi b = true ↔ lo.toNat ≤ b.toNat ∧ b.toNat ≤ hi.toNat := by
  rw [within, Bool.and_eq_true, decide_eq_true_eq, decide_eq_true_eq]
  exact Iff.rfl

theorem continuation_iff : continuation b = true ↔ 128 ≤ b.toNat ∧ b.toNat ≤ 191 :=
  within_iff

theorem follows_iff : follows b b₁ = true ↔ (128 ≤ b₁.toNat ∧ b₁.toNat ≤ 191) ∧
    (b.toNat = 0xe0 → 0xa0 ≤ b₁.toNat) ∧ (b.toNat = 0xed → b₁.toNat ≤ 0x9f) ∧
    (b.toNat = 0xf0 → 0x90 ≤ b₁.toNat) ∧ (b.toNat = 0xf4 → b₁.toNat ≤ 0x8f) := by
  unfold follows
  simp only [← UInt8.toNat_inj, UInt8.reduceToNat]
  split_ifs <;> simp only [continuation_iff, within_iff, UInt8.reduceToNat] <;> omega

theorem continuation_of_follows (h : follows b b₁ = true) : continuation b₁ = true :=
  continuation_iff.mpr (follows_iff.mp h).1

theorem not_continuation_of_lt (h : b < 0x80) : continuation b = false := by
  have hlt : b.toNat < 128 := h
  rw [← Bool.not_eq_true, continuation_iff]
  omega

theorem not_continuation_of_within {lo hi : UInt8} (h : within lo hi b = true)
    (hlo : 192 ≤ lo.toNat) : continuation b = false := by
  rw [within_iff] at h
  rw [← Bool.not_eq_true, continuation_iff]
  omega

theorem characterSize_of_within {k : Nat} {lo hi : UInt8} (h : within lo hi b = true)
    (hk : (k, lo, hi) ∈ [(2, 0xc2, 0xdf), (3, 0xe0, 0xef), (4, 0xf0, 0xf4)]) :
    characterSize b = k := by
  grind [within, characterSize]

theorem character_shape (h : character w = true) :
    ∃ b rest, w = b :: rest ∧ continuation b = false ∧ (∀ c ∈ rest, continuation c = true) ∧
      rest.length + 1 = characterSize b := by
  match w, h with
  | [b], h =>
    have hb : b < 0x80 := by simpa [character] using h
    exact ⟨b, [], rfl, not_continuation_of_lt hb, by simp, by simp [characterSize, hb]⟩
  | [b, b₁], h =>
    simp only [character, Bool.and_eq_true] at h
    exact ⟨b, [b₁], rfl, not_continuation_of_within h.1 (by decide), by simp [h.2],
      (characterSize_of_within h.1 (by simp)).symm⟩
  | [b, b₁, b₂], h =>
    simp only [character, Bool.and_eq_true] at h
    exact ⟨b, [b₁, b₂], rfl, not_continuation_of_within h.1.1 (by decide),
      by simp [continuation_of_follows h.1.2, h.2], (characterSize_of_within h.1.1 (by simp)).symm⟩
  | [b, b₁, b₂, b₃], h =>
    simp only [character, Bool.and_eq_true] at h
    exact ⟨b, [b₁, b₂, b₃], rfl, not_continuation_of_within h.1.1.1 (by decide),
      by simp [continuation_of_follows h.1.1.2, h.1.2, h.2],
      (characterSize_of_within h.1.1.1 (by simp)).symm⟩

def utf8 : Coding UInt8 where
  word w := character w = true
  lead b := continuation b = false
  size := characterSize
  shape h := by
    obtain ⟨b, rest, heq, hb, hrest, hlen⟩ := character_shape h
    exact ⟨b, rest, heq, hb, fun c hc => by simp [hrest c hc], hlen⟩

theorem validString_append (h : character u = true) : validString (u ++ s) = validString s := by
  match u, h with
  | [b], h =>
    have hb : b < 0x80 := by simpa [character] using h
    rw [List.singleton_append, validString.eq_def]
    simp [hb]
  | [b, b₁], h =>
    simp only [character, Bool.and_eq_true] at h
    rw [List.cons_append, List.singleton_append, validString.eq_def]
    grind [within]
  | [b, b₁, b₂], h =>
    simp only [character, Bool.and_eq_true] at h
    rw [List.cons_append, List.cons_append, List.singleton_append, validString.eq_def]
    grind [follows, within]
  | [b, b₁, b₂, b₃], h =>
    simp only [character, Bool.and_eq_true] at h
    rw [List.cons_append, List.cons_append, List.cons_append, List.singleton_append,
      validString.eq_def]
    grind [follows, within]

theorem validString_of_text (h : utf8.Text s) : validString s = true := by
  induction h with
  | nil => rfl
  | cons hw _ ih => rw [validString_append hw, ih]

theorem text_three (hb : within 0xe0 0xef b = true) (h₁ : follows b b₁ = true)
    (h₂ : continuation b₂ = true) (hs : utf8.Text s) : utf8.Text (b :: b₁ :: b₂ :: s) :=
  Coding.Text.cons (w := [b, b₁, b₂]) (by simp [utf8, character, hb, h₁, h₂]) hs

theorem text_four (hb : within 0xf0 0xf4 b = true) (h₁ : follows b b₁ = true)
    (h₂ : continuation b₂ = true) (h₃ : continuation b₃ = true) (hs : utf8.Text s) :
    utf8.Text (b :: b₁ :: b₂ :: b₃ :: s) :=
  Coding.Text.cons (w := [b, b₁, b₂, b₃]) (by simp [utf8, character, hb, h₁, h₂, h₃]) hs

theorem text_of_validString (h : validString s = true) : utf8.Text s := by
  fun_induction validString s with
  | case1 => exact Coding.Text.nil
  | case2 b s hb ih =>
    exact Coding.Text.cons (w := [b]) (by simpa [utf8, character] using hb) (ih h)
  | case4 b hb b₁ s hc ih =>
    rw [Bool.and_eq_true] at h
    exact Coding.Text.cons (w := [b, b₁]) (by simp [utf8, character, hc, h.1]) (ih h.2)
  | case6 b₁ b₂ s _ _ ih =>
    simp only [Bool.and_eq_true] at h
    exact text_three (by decide) h.1.1 h.1.2 (ih h.2)
  | case7 b₁ b₂ s _ _ _ ih =>
    simp only [Bool.and_eq_true] at h
    exact text_three (by decide) h.1.1 h.1.2 (ih h.2)
  | case8 b _ b₁ _ b₂ s he hd hb ih =>
    simp only [Bool.and_eq_true] at h
    have hfirst : within 0xe0 0xef b = true := by grind [within]
    have hsecond : follows b b₁ = true := by grind [follows, within]
    exact text_three hfirst hsecond h.1.2 (ih h.2)
  | case10 b₁ b₂ b₃ s _ _ _ _ _ ih =>
    simp only [Bool.and_eq_true] at h
    exact text_four (by decide) h.1.1.1 h.1.1.2 h.1.2 (ih h.2)
  | case11 b _ b₁ _ b₂ he hd _ b₃ s h0 hb ih =>
    simp only [Bool.and_eq_true] at h
    have hfirst : within 0xf0 0xf4 b = true := by grind [within]
    have hsecond : follows b b₁ = true := by grind [follows, within]
    exact text_four hfirst hsecond h.1.1.2 h.1.2 (ih h.2)
  | case12 b₁ b₂ b₃ s _ _ _ _ _ _ _ ih =>
    simp only [Bool.and_eq_true] at h
    exact text_four (by decide) h.1.1.1 h.1.1.2 h.1.2 (ih h.2)
  | case3 | case5 | case9 | case13 => cases h

theorem validString_iff_text : validString s = true ↔ utf8.Text s :=
  ⟨text_of_validString, validString_of_text⟩

theorem character_encode (c : Char) : character (String.utf8EncodeChar c) = true := by
  have hvalid : c.val.toNat < 0xd800 ∨ 0xdfff < c.val.toNat ∧ c.val.toNat < 0x110000 := c.valid
  fun_cases String.utf8EncodeChar c
  all_goals
    simp only [character, continuation_iff, follows_iff, within_iff, Bool.and_eq_true,
      decide_eq_true_eq, UInt8.lt_iff_toNat_lt, UInt8.toNat_ofNat', UInt8.reduceToNat]
    omega

theorem ofNat_val {v : Nat} (hv : v.isValidChar) : (Char.ofNat v).val.toNat = v := by
  rw [Char.ofNat, dif_pos hv]
  rfl

theorem exists_encode (h : character w = true) : ∃ c : Char, String.utf8EncodeChar c = w := by
  match w, h with
  | [b], h =>
    simp only [character, decide_eq_true_eq, UInt8.lt_iff_toNat_lt, UInt8.reduceToNat] at h
    refine ⟨Char.ofNat b.toNat, ?_⟩
    rw [String.utf8EncodeChar, ofNat_val (.inl (by omega)), if_pos (by omega), UInt8.ofNat_toNat]
  | [b, b₁], h =>
    simp only [character, continuation_iff, within_iff, Bool.and_eq_true, UInt8.reduceToNat] at h
    refine ⟨Char.ofNat ((b.toNat - 0xc0) * 64 + (b₁.toNat - 0x80)), ?_⟩
    rw [String.utf8EncodeChar, ofNat_val (.inl (by omega)), if_neg (by omega), if_pos (by omega)]
    simp only [List.cons.injEq, ← UInt8.toNat_inj, UInt8.toNat_ofNat', and_true]
    omega
  | [b, b₁, b₂], h =>
    simp only [character, continuation_iff, follows_iff, within_iff, Bool.and_eq_true,
      UInt8.reduceToNat] at h
    refine ⟨Char.ofNat ((b.toNat - 0xe0) * 4096 + (b₁.toNat - 0x80) * 64 + (b₂.toNat - 0x80)), ?_⟩
    rw [String.utf8EncodeChar, ofNat_val (by unfold Nat.isValidChar; omega), if_neg (by omega),
      if_neg (by omega), if_pos (by omega)]
    simp only [List.cons.injEq, ← UInt8.toNat_inj, UInt8.toNat_ofNat', and_true]
    omega
  | [b, b₁, b₂, b₃], h =>
    simp only [character, continuation_iff, follows_iff, within_iff, Bool.and_eq_true,
      UInt8.reduceToNat] at h
    refine ⟨Char.ofNat ((b.toNat - 0xf0) * 262144 + (b₁.toNat - 0x80) * 4096 +
      (b₂.toNat - 0x80) * 64 + (b₃.toNat - 0x80)), ?_⟩
    rw [String.utf8EncodeChar, ofNat_val (by unfold Nat.isValidChar; omega), if_neg (by omega),
      if_neg (by omega), if_neg (by omega)]
    simp only [List.cons.injEq, ← UInt8.toNat_inj, UInt8.toNat_ofNat', and_true]
    omega

theorem text_encode (cs : List Char) : utf8.Text (cs.flatMap String.utf8EncodeChar) := by
  apply Coding.Text.flatten
  intro w hw
  obtain ⟨c, -, rfl⟩ := List.mem_map.mp hw
  exact character_encode c

/-- Valid text is what encodes some list of characters. -/
theorem validString_iff_encode :
    validString s = true ↔ ∃ cs : List Char, cs.flatMap String.utf8EncodeChar = s := by
  rw [validString_iff_text]
  constructor
  · intro h
    induction h with
    | nil => exact ⟨[], rfl⟩
    | cons hw _ ih =>
      obtain ⟨c, rfl⟩ := exists_encode hw
      obtain ⟨cs, rfl⟩ := ih
      exact ⟨c :: cs, rfl⟩
  · rintro ⟨cs, rfl⟩
    exact text_encode cs

end ArkSwap.GoInternal
