import Mathlib.Data.List.Nodup

/-! A stream that carries another: entries stand for the others in order, with foreign
entries between them. -/

variable {X Y Z : Type*} {R : X → Y → Prop} {foreign : Y → Prop} {xs xs' : List X} {ys ys' : List Y}

/-- Entries that a partial function maps to one value of a list without repetitions are one. -/
theorem List.eq_of_nodup_filterMap {f : X → Option Z} (h : (xs.filterMap f).Nodup) {x x' : X}
    (hx : x ∈ xs) (hx' : x' ∈ xs) {z : Z} (hz : f x = some z) (hz' : f x' = some z) : x = x' := by
  induction xs with
  | nil => cases hx
  | cons y ys ih =>
    have hfresh : ∀ x ∈ ys, f y = some z → f x ≠ some z := by
      intro x hx hy hxz
      rw [List.filterMap_cons_some hy, List.nodup_cons] at h
      exact h.1 (List.mem_filterMap.mpr ⟨x, hx, hxz⟩)
    rcases List.mem_cons.mp hx with rfl | hmem <;> rcases List.mem_cons.mp hx' with rfl | hmem'
    · rfl
    · exact absurd hz' (hfresh x' hmem' hz)
    · exact absurd hz (hfresh x hmem hz')
    · refine ih ?_ hmem hmem'
      rw [List.filterMap_cons] at h
      split at h
      · exact h
      · exact (List.nodup_cons.mp h).2

inductive Carries (R : X → Y → Prop) (foreign : Y → Prop) : List X → List Y → Prop where
  | nil : Carries R foreign [] []
  | entry {x : X} {y : Y} {xs : List X} {ys : List Y} : R x y → Carries R foreign xs ys →
      Carries R foreign (x :: xs) (y :: ys)
  | foreign {y : Y} {xs : List X} {ys : List Y} : foreign y → Carries R foreign xs ys →
      Carries R foreign xs (y :: ys)

namespace Carries

theorem append (h : Carries R foreign xs ys) (h' : Carries R foreign xs' ys') :
    Carries R foreign (xs ++ xs') (ys ++ ys') := by
  induction h with
  | nil => exact h'
  | entry hxy _ ih => exact .entry hxy ih
  | foreign hy _ ih => exact .foreign hy ih

theorem mem_left (h : Carries R foreign xs ys) {x : X} (hx : x ∈ xs) : ∃ y ∈ ys, R x y := by
  induction h with
  | nil => cases hx
  | @entry x' y' xs ys hxy _ ih =>
    rcases List.mem_cons.mp hx with rfl | hx
    · exact ⟨y', List.mem_cons_self, hxy⟩
    · obtain ⟨y, hy, hR⟩ := ih hx
      exact ⟨y, List.mem_cons_of_mem _ hy, hR⟩
  | foreign _ _ ih =>
    obtain ⟨y, hy, hR⟩ := ih hx
    exact ⟨y, List.mem_cons_of_mem _ hy, hR⟩

/-- What comes before an entry carries what comes before the one it stands for. -/
theorem split (h : Carries R foreign xs ys) {before after : List Y} {y : Y}
    (hys : ys = before ++ y :: after) (hy : ¬foreign y) :
    ∃ before' x after', xs = before' ++ x :: after' ∧ R x y ∧ Carries R foreign before' before := by
  induction h generalizing before with
  | nil => exact absurd hys.symm (List.append_ne_nil_of_right_ne_nil _ (List.cons_ne_nil _ _))
  | @entry x' y' xs ys hxy _ ih =>
    rcases before with _ | ⟨z, before⟩
    · obtain ⟨rfl, -⟩ := List.cons.inj hys
      exact ⟨[], x', xs, rfl, hxy, .nil⟩
    · obtain ⟨rfl, htail⟩ := List.cons.inj hys
      obtain ⟨before', x, after', rfl, hR, hbefore⟩ := ih htail
      exact ⟨x' :: before', x, after', rfl, hR, .entry hxy hbefore⟩
  | @foreign y' xs ys hy' _ ih =>
    rcases before with _ | ⟨z, before⟩
    · obtain ⟨rfl, -⟩ := List.cons.inj hys
      exact absurd hy' hy
    · obtain ⟨rfl, htail⟩ := List.cons.inj hys
      obtain ⟨before', x, after', rfl, hR, hbefore⟩ := ih htail
      exact ⟨before', x, after', rfl, hR, .foreign hy' hbefore⟩

theorem mem_right (h : Carries R foreign xs ys) {y : Y} (hy : y ∈ ys) (hours : ¬foreign y) :
    ∃ x ∈ xs, R x y := by
  obtain ⟨before, after, hys⟩ := List.append_of_mem hy
  obtain ⟨before', x, after', rfl, hR, -⟩ := h.split hys hours
  exact ⟨x, List.mem_append_right _ List.mem_cons_self, hR⟩

/-- What can be read off the carried entries can be read off the carrying ones. -/
theorem filterMap_eq (h : Carries R foreign xs ys) {f : X → Option Z} {g : Y → Option Z}
    (hR : ∀ x ∈ xs, ∀ y, R x y → g y = f x) (hforeign : ∀ y, foreign y → g y = none) :
    ys.filterMap g = xs.filterMap f := by
  induction h with
  | nil => rfl
  | entry hxy _ ih =>
    rw [List.filterMap_cons, List.filterMap_cons, hR _ List.mem_cons_self _ hxy,
      ih fun x hx => hR x (List.mem_cons_of_mem _ hx)]
  | foreign hy _ ih => rw [List.filterMap_cons_none (hforeign _ hy), ih hR]

end Carries
