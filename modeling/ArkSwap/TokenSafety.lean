import ArkSwap.Utf8

/-! Which token text is safe to store and show, and when the cut at `maxLen` bytes gives
up what `sanitise` has checked of the whole text. -/

namespace ArkSwap.GoInternal

open Codes

variable {s t u w raw : List UInt8} {b b₁ b₂ b₃ : UInt8} {n : Nat}
  {sequences : List (List UInt8)}

theorem trimStart_split (sequences : List (List UInt8)) (n : Nat) (s : List UInt8) :
    ∃ ws : List (List UInt8), (∀ w ∈ ws, w ∈ sequences) ∧
      s = ws.flatten ++ trimStart sequences n s := by
  induction n generalizing s with
  | zero => exact ⟨[], by simp, rfl⟩
  | succ n ih =>
    rw [trimStart]
    split
    · rename_i w hfind
      obtain ⟨ws, hws, heq⟩ := ih (s.drop w.length)
      have hpre : w <+: s := by
        have hfirst := List.find?_some hfind
        exact List.isPrefixOf_iff_prefix.mp hfirst
      refine ⟨w :: ws, List.forall_mem_cons.mpr ⟨List.mem_of_find?_eq_some hfind, hws⟩, ?_⟩
      rw [List.flatten_cons, List.append_assoc, ← heq]
      exact (List.prefix_iff_eq_append.mp hpre).symm
    · exact ⟨[], by simp, rfl⟩

theorem trimStart_suffix (sequences : List (List UInt8)) (n : Nat) (s : List UInt8) :
    trimStart sequences n s <:+ s := by
  obtain ⟨ws, -, heq⟩ := trimStart_split sequences n s
  exact ⟨ws.flatten, heq.symm⟩

/-- No sequence is left in front once every byte had its turn. -/
theorem not_prefix_trimStart (hne : ∀ w ∈ sequences, w ≠ []) (hn : s.length ≤ n) :
    ∀ w ∈ sequences, ¬ w <+: trimStart sequences n s := by
  induction n generalizing s with
  | zero =>
    intro w hw hpre
    rw [trimStart, List.length_eq_zero_iff.mp (Nat.le_zero.mp hn)] at hpre
    exact hne w hw (List.prefix_nil.mp hpre)
  | succ n ih =>
    rw [trimStart]
    split
    · rename_i v hfind
      have hpos := List.length_pos_iff.mpr (hne v (List.mem_of_find?_eq_some hfind))
      apply ih
      rw [List.length_drop]
      omega
    · rename_i hfind
      intro w hw hpre
      exact List.find?_eq_none.mp hfind w hw (List.isPrefixOf_iff_prefix.mpr hpre)

theorem trimStart_eq_self (h : ∀ w ∈ sequences, ¬ w <+: s) : trimStart sequences n s = s := by
  cases n with
  | zero => rfl
  | succ n =>
    have hfind : sequences.find? (·.isPrefixOf s) = none := by
      rw [List.find?_eq_none]
      intro w hw hpre
      exact h w hw (List.isPrefixOf_iff_prefix.mp hpre)
    rw [trimStart, hfind]

theorem spaces_ne_nil : ∀ w ∈ spaces, w ≠ [] := by decide

theorem spaces_character : ∀ w ∈ spaces, character w = true := by decide

/-- No white space at either end. -/
structure Trimmed (s : List UInt8) : Prop where
  front : ∀ w ∈ spaces, ¬ w <+: s
  back : ∀ w ∈ spaces, ¬ w <:+ s

theorem trimSpace_split (s : List UInt8) :
    ∃ front back : List (List UInt8), (∀ w ∈ front, w ∈ spaces) ∧ (∀ w ∈ back, w ∈ spaces) ∧
      s = front.flatten ++ trimSpace s ++ back.flatten := by
  obtain ⟨front, hfront, heq⟩ := trimStart_split spaces s.length s
  generalize ht : trimStart spaces s.length s = t at heq
  obtain ⟨back, hback, hrev⟩ :=
    trimStart_split (spaces.map List.reverse) t.length t.reverse
  refine ⟨front, (back.map List.reverse).reverse, hfront, ?_, ?_⟩
  · intro w hw
    rw [List.mem_reverse, List.mem_map] at hw
    obtain ⟨v, hv, rfl⟩ := hw
    obtain ⟨u, hu, rfl⟩ := List.mem_map.mp (hback v hv)
    rwa [List.reverse_reverse]
  · have htrim : t = trimSpace s ++ (back.map List.reverse).reverse.flatten := by
      rw [← List.reverse_flatten, trimSpace, ht, ← List.reverse_append, ← hrev,
        List.reverse_reverse]
    rw [List.append_assoc, ← htrim]
    exact heq

theorem trimSpace_trimmed (s : List UInt8) : Trimmed (trimSpace s) := by
  generalize ht : trimStart spaces s.length s = t
  have hfront : ∀ w ∈ spaces, ¬ w <+: t := ht ▸ not_prefix_trimStart spaces_ne_nil (Nat.le_refl _)
  have hne : ∀ w ∈ spaces.map List.reverse, w ≠ [] := by decide
  have hback := not_prefix_trimStart hne (s := t.reverse) (n := t.length) (by simp)
  have hkept := trimStart_suffix (spaces.map List.reverse) t.length t.reverse
  simp only [trimSpace, ht]
  constructor
  · intro w hw hpre
    rw [← List.reverse_suffix, List.reverse_reverse] at hpre
    exact hfront w hw (List.reverse_suffix.mp (hpre.trans hkept))
  · intro w hw hsuffix
    apply hback w.reverse (List.mem_map_of_mem hw)
    rwa [← List.reverse_suffix, List.reverse_reverse]

theorem trimSpace_eq_self (h : Trimmed s) : trimSpace s = s := by
  have hback : ∀ w ∈ spaces.map List.reverse, ¬ w <+: s.reverse := by
    intro w hw
    obtain ⟨v, hv, rfl⟩ := List.mem_map.mp hw
    rw [List.reverse_prefix]
    exact h.back v hv
  simp only [trimSpace]
  rw [trimStart_eq_self h.front, trimStart_eq_self hback, List.reverse_reverse]

theorem text_of_spaces {ws : List (List UInt8)} (h : ∀ w ∈ ws, w ∈ spaces) :
    utf8.Text ws.flatten :=
  Coding.Text.flatten fun w hw => spaces_character w (h w hw)

theorem validString_trimSpace (h : validString s = true) : validString (trimSpace s) = true := by
  obtain ⟨front, back, hfront, hback, heq⟩ := trimSpace_split s
  rw [validString_iff_text] at h ⊢
  rw [heq] at h
  exact Coding.Text.trim (text_of_spaces hfront) (text_of_spaces hback) h

theorem sanitise_eq_some :
    sanitise raw = some s ↔ trimSpace raw ≠ [] ∧ validString (trimSpace raw) = true ∧
      (trimSpace raw).any isControl = false ∧ (trimSpace raw).take maxLen = s := by
  have hcut : (if maxLen < (trimSpace raw).length then (trimSpace raw).take maxLen
      else trimSpace raw) = (trimSpace raw).take maxLen := by
    split
    · rfl
    · exact (List.take_of_length_le (by omega)).symm
  simp only [sanitise, hcut]
  split
  · rename_i hbad
    constructor
    · intro h
      cases h
    · intro h
      rcases hbad with hbad | hbad
      · exact absurd hbad h.1
      · simp [hbad] at h
  · rename_i hgood
    rw [not_or, Bool.not_eq_false] at hgood
    split
    · rename_i hcontrol
      simp [hcontrol]
    · rename_i hcontrol
      simp [hgood.1, hgood.2, hcontrol]

theorem sanitise_eq_none : sanitise raw = none ↔ trimSpace raw = [] ∨
    validString (trimSpace raw) = false ∨ (trimSpace raw).any isControl = true := by
  rw [Option.eq_none_iff_forall_not_mem]
  constructor
  · intro h
    by_contra hgood
    simp only [not_or, Bool.not_eq_false, Bool.not_eq_true] at hgood
    exact h _ (sanitise_eq_some.mpr ⟨hgood.1, hgood.2.1, hgood.2.2, rfl⟩)
  · intro hbad s hs
    obtain ⟨hne, hvalid, hcontrol, -⟩ := sanitise_eq_some.mp hs
    simp [hne, hvalid, hcontrol] at hbad

/-- Nothing but white space. -/
def Blank (s : List UInt8) : Prop :=
  ∃ ws : List (List UInt8), (∀ w ∈ ws, w ∈ spaces) ∧ ws.flatten = s

theorem blank_of_trimSpace (h : trimSpace s = []) : Blank s := by
  obtain ⟨front, back, hfront, hback, heq⟩ := trimSpace_split s
  refine ⟨front ++ back, ?_, ?_⟩
  · intro w hw
    rcases List.mem_append.mp hw with hw | hw
    · exact hfront w hw
    · exact hback w hw
  · rw [heq, h, List.append_nil, List.flatten_append]

theorem mem_of_mem_trimSpace (h : b ∈ trimSpace s) : b ∈ s := by
  obtain ⟨front, back, -, -, heq⟩ := trimSpace_split s
  rw [heq]
  simp [h]

/-- What is refused is blank, malformed or not printable as it came. -/
theorem refused (h : sanitise raw = none) :
    Blank raw ∨ validString raw = false ∨ raw.any isControl = true := by
  rcases sanitise_eq_none.mp h with hblank | hvalid | hcontrol
  · exact .inl (blank_of_trimSpace hblank)
  · refine .inr (.inl ?_)
    rw [← Bool.not_eq_true] at hvalid ⊢
    exact fun hraw => hvalid (validString_trimSpace hraw)
  · refine .inr (.inr ?_)
    obtain ⟨b, hb, hc⟩ := List.any_eq_true.mp hcontrol
    exact List.any_eq_true.mpr ⟨b, mem_of_mem_trimSpace hb, hc⟩

structure Safe (s : List UInt8) : Prop where
  nonempty : s ≠ []
  valid : validString s = true
  short : s.length ≤ maxLen
  printable : s.any isControl = false
  trimmed : Trimmed s
  again : sanitise s = some s

/-- A character begins behind the cut, and no white space ends at it. -/
structure CutClean (t : List UInt8) : Prop where
  boundary : ∀ b, t[maxLen]? = some b → continuation b = false
  solid : ∀ w ∈ spaces, ¬ w <+: t.drop (maxLen - w.length)

theorem sanitise_again (hne : s ≠ []) (hvalid : validString s = true) (hshort : s.length ≤ maxLen)
    (hprintable : s.any isControl = false) (htrimmed : Trimmed s) : sanitise s = some s := by
  rw [sanitise_eq_some, trimSpace_eq_self htrimmed]
  exact ⟨hne, hvalid, hprintable, List.take_of_length_le hshort⟩

theorem validString_take_iff (h : validString t = true) :
    validString (t.take n) = true ↔ ∀ b, t[n]? = some b → continuation b = false := by
  rw [validString_iff_text] at h ⊢
  exact Coding.text_take_iff h

/-- What ends at a cut begins as many bytes before it. -/
theorem suffix_take_iff (hw : w.length ≤ n) (hn : n ≤ t.length) :
    w <:+ t.take n ↔ w <+: t.drop (n - w.length) := by
  have hlen : (t.take n).length - w.length = n - w.length := by
    rw [List.length_take, Nat.min_eq_left hn]
  have htake : n - (n - w.length) = w.length := by omega
  rw [List.suffix_iff_eq_drop, hlen, List.drop_take, htake, List.prefix_iff_eq_take]

theorem spaces_length : ∀ w ∈ spaces, w.length ≤ maxLen := by decide

theorem Trimmed.take_iff (h : Trimmed t) :
    Trimmed (t.take maxLen) ↔ ∀ w ∈ spaces, ¬ w <+: t.drop (maxLen - w.length) := by
  rcases Nat.lt_or_ge t.length maxLen with hshort | hlong
  · rw [List.take_of_length_le hshort.le]
    refine iff_of_true h ?_
    intro w hw hpre
    have hpos := List.length_pos_iff.mpr (spaces_ne_nil w hw)
    have hsize := spaces_length w hw
    have hle := hpre.length_le
    rw [List.length_drop] at hle
    omega
  · constructor
    · intro hcut w hw hpre
      exact hcut.back w hw ((suffix_take_iff (spaces_length w hw) hlong).mpr hpre)
    · intro hsolid
      constructor
      · intro w hw hpre
        exact h.front w hw (hpre.trans (List.take_prefix _ t))
      · intro w hw hsuffix
        exact hsolid w hw ((suffix_take_iff (spaces_length w hw) hlong).mp hsuffix)

theorem safe_take_iff (hne : t ≠ []) (hvalid : validString t = true)
    (hprintable : t.any isControl = false) (htrimmed : Trimmed t) :
    Safe (t.take maxLen) ↔ CutClean t := by
  constructor
  · intro hsafe
    exact ⟨(validString_take_iff hvalid).mp hsafe.valid, htrimmed.take_iff.mp hsafe.trimmed⟩
  · intro hclean
    have hne' : t.take maxLen ≠ [] := by
      rw [Ne, List.take_eq_nil_iff, not_or]
      exact ⟨by decide, hne⟩
    have hvalid' := (validString_take_iff hvalid).mpr hclean.boundary
    have hshort : (t.take maxLen).length ≤ maxLen := List.length_take_le ..
    have hprintable' : (t.take maxLen).any isControl = false := by
      rw [List.any_eq_false] at hprintable ⊢
      exact fun b hb => hprintable b (List.mem_of_mem_take hb)
    have htrimmed' := htrimmed.take_iff.mpr hclean.solid
    exact ⟨hne', hvalid', hshort, hprintable', htrimmed',
      sanitise_again hne' hvalid' hshort hprintable' htrimmed'⟩

theorem cutClean_nil : CutClean [] := by
  constructor
  · simp
  · intro w hw hpre
    rw [List.drop_nil, List.prefix_nil] at hpre
    exact spaces_ne_nil w hw hpre

/-- Accepted text is safe, and only bad input refused, just when no printable text is cut
inside a character or behind white space. -/
theorem sanitise_safe_iff (raw : List UInt8) :
    ((∀ s, sanitise raw = some s → Safe s) ∧
      (sanitise raw = none → Blank raw ∨ validString raw = false ∨ raw.any isControl = true)) ↔
    (validString (trimSpace raw) = true → (trimSpace raw).any isControl = false →
      CutClean (trimSpace raw)) := by
  constructor
  · rintro ⟨hsafe, -⟩ hvalid hprintable
    by_cases hne : trimSpace raw = []
    · rw [hne]
      exact cutClean_nil
    · apply (safe_take_iff hne hvalid hprintable (trimSpace_trimmed raw)).mp
      exact hsafe _ (sanitise_eq_some.mpr ⟨hne, hvalid, hprintable, rfl⟩)
  · intro hclean
    refine ⟨?_, refused⟩
    intro s hs
    obtain ⟨hne, hvalid, hprintable, rfl⟩ := sanitise_eq_some.mp hs
    apply (safe_take_iff hne hvalid hprintable (trimSpace_trimmed raw)).mpr
    exact hclean hvalid hprintable

/-- A name of 129 bytes whose last character takes two. -/
def splitName : List UInt8 := List.replicate 127 0x61 ++ [0xc3, 0xa9]

set_option maxRecDepth 4000 in
theorem splitName_cut : sanitise splitName = some (List.replicate 127 0x61 ++ [0xc3]) := by
  decide

set_option maxRecDepth 4000 in
theorem splitName_malformed : validString (List.replicate 127 0x61 ++ [0xc3]) = false := by
  decide

theorem splitName_unsafe : ¬ ∀ raw,
    (∀ s, sanitise raw = some s → Safe s) ∧
      (sanitise raw = none → Blank raw ∨ validString raw = false ∨ raw.any isControl = true) := by
  intro h
  have hsafe := (h splitName).1 _ splitName_cut
  exact Bool.false_ne_true (splitName_malformed.symm.trans hsafe.valid)

-- The cut can also leave white space behind.
set_option maxRecDepth 4000 in
example : sanitise (List.replicate 127 0x61 ++ [0x20, 0x62]) =
    some (List.replicate 127 0x61 ++ [0x20]) := by
  decide

end ArkSwap.GoInternal
