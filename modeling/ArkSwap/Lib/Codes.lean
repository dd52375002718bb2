import Mathlib.Data.List.Basic

/-! Texts over a code whose words begin with a letter that no word holds later: how a
text falls into words, where it may be cut, and what is left when words are taken off it. -/

namespace Codes

/-- The first letter of a word fixes its length, and only a first letter is a lead. -/
structure Coding (β : Type) where
  word : List β → Prop
  lead : β → Prop
  size : β → Nat
  shape : ∀ {w}, word w →
    ∃ b rest, w = b :: rest ∧ lead b ∧ (∀ c ∈ rest, ¬ lead c) ∧ rest.length + 1 = size b

namespace Coding

variable {β : Type} {C : Coding β} {s t u v w : List β} {n : Nat}

inductive Text (C : Coding β) : List β → Prop where
  | nil : Text C []
  | cons {w s : List β} (hw : C.word w) (hs : Text C s) : Text C (w ++ s)

theorem Text.flatten {ws : List (List β)} (h : ∀ w ∈ ws, C.word w) : C.Text ws.flatten := by
  induction ws with
  | nil => exact Text.nil
  | cons w ws ih =>
    have hrest : ∀ x ∈ ws, C.word x := fun x hx => h x (List.mem_cons_of_mem w hx)
    exact Text.cons (h w List.mem_cons_self) (ih hrest)

theorem word_ne_nil (hw : C.word w) : w ≠ [] := by
  obtain ⟨b, rest, rfl, -⟩ := C.shape hw
  exact List.cons_ne_nil b rest

theorem Text.append (hs : C.Text s) (ht : C.Text t) : C.Text (s ++ t) := by
  induction hs with
  | nil => exact ht
  | cons hw _ ih =>
    rw [List.append_assoc]
    exact Text.cons hw ih

theorem Text.lead_head {b : β} (hs : C.Text (b :: s)) : C.lead b := by
  generalize heq : b :: s = t at hs
  cases hs with
  | nil => cases heq
  | cons hw _ =>
    obtain ⟨c, rest, rfl, hlead, -⟩ := C.shape hw
    rw [(List.cons.inj heq).1]
    exact hlead

/-- Two words that begin one text are the same word. -/
theorem word_unique (hu : C.word u) (hv : C.word v) (h : u ++ s = v ++ t) : u = v ∧ s = t := by
  obtain ⟨b, ru, rfl, -, -, hb⟩ := C.shape hu
  obtain ⟨c, rv, rfl, -, -, hc⟩ := C.shape hv
  have hbc : b = c := (List.cons.inj h).1
  subst hbc
  exact List.append_inj h (by simp only [List.length_cons]; omega)

theorem Text.tail (hw : C.word w) (h : C.Text (w ++ s)) : C.Text s := by
  generalize heq : w ++ s = t at h
  cases h with
  | nil => exact absurd (List.append_eq_nil_iff.mp heq).1 (word_ne_nil hw)
  | cons hv ht =>
    rw [(word_unique hw hv heq).2]
    exact ht

theorem text_append_iff (hs : C.Text s) : C.Text (s ++ t) ↔ C.Text t := by
  constructor
  · intro h
    induction hs with
    | nil => exact h
    | cons hw _ ih =>
      rw [List.append_assoc] at h
      exact ih (Text.tail hw h)
  · exact hs.append

/-- A cut that stays outside a text's first word falls into the rest of it. -/
theorem cut_cons {b : β} (hw : C.word w) (hb : (w ++ s)[n]? = some b) (hlead : C.lead b) :
    n = 0 ∨ w.length ≤ n := by
  obtain ⟨c, rest, rfl, -, hrest, -⟩ := C.shape hw
  cases n with
  | zero => exact .inl rfl
  | succ n =>
    right
    by_contra hlt
    rw [List.length_cons] at hlt
    have hn : n < rest.length := by omega
    rw [List.cons_append, List.getElem?_cons_succ, List.getElem?_append_left hn,
      List.getElem?_eq_getElem hn, Option.some.injEq] at hb
    exact hrest b (hb ▸ List.getElem_mem hn) hlead

/-- The first letters of a text are a text just when the next one leads a word. -/
theorem text_take_iff (ht : C.Text t) :
    C.Text (t.take n) ↔ ∀ b, t[n]? = some b → C.lead b := by
  constructor
  · intro h b hb
    have hdrop : C.Text (t.drop n) := (text_append_iff h).mp (by rwa [List.take_append_drop])
    obtain ⟨hn, rfl⟩ := List.getElem?_eq_some_iff.mp hb
    rw [List.drop_eq_getElem_cons hn] at hdrop
    exact hdrop.lead_head
  · intro h
    induction ht generalizing n with
    | nil =>
      rw [List.take_nil]
      exact Text.nil
    | @cons w s hw hs ih =>
      rcases Nat.lt_or_ge n (w ++ s).length with hn | hn
      · rcases cut_cons hw (List.getElem?_eq_getElem hn) (h _ (List.getElem?_eq_getElem hn)) with
          rfl | hle
        · exact Text.nil
        · rw [List.take_append, List.take_of_length_le hle]
          apply Text.cons hw
          apply ih
          intro b hb
          apply h
          rw [List.getElem?_append_right hle]
          exact hb
      · rw [List.take_of_length_le hn]
        exact Text.cons hw hs

theorem Text.front (ht : C.Text t) (h : C.Text (s ++ t)) : C.Text s := by
  have hcut := (text_take_iff h (n := s.length)).mpr
  rw [List.take_left] at hcut
  apply hcut
  intro b hb
  rw [List.getElem?_append_right (Nat.le_refl _), Nat.sub_self] at hb
  cases t with
  | nil => simp at hb
  | cons c t =>
    cases hb
    exact ht.lead_head

/-- Taking texts off both ends of a text leaves a text. -/
theorem Text.trim (hs : C.Text s) (ht : C.Text t) (h : C.Text (s ++ u ++ t)) : C.Text u := by
  rw [List.append_assoc, text_append_iff hs] at h
  exact ht.front h

end Coding

end Codes
