import Mathlib.Data.List.Induction
import Mathlib.Order.Lattice

/-! The best element of a list by a key. A later element replaces the best one
only when its key is strictly greater, so the first of equals stays. -/

namespace Best

variable {α β : Type*} [LinearOrder β] {key : α → β} {l : List α} {a b : α}

def step (key : α → β) (best : Option α) (a : α) : Option α :=
  match best with
  | none => some a
  | some b => if key b < key a then some a else some b

def pick (key : α → β) (l : List α) : Option α := l.foldl (step key) none

/-- An element above all before it and not below any after it. -/
def IsFirstBest (key : α → β) (l : List α) (a : α) : Prop :=
  ∃ before after, l = before ++ a :: after ∧ (∀ b ∈ before, key b < key a) ∧
    ∀ b ∈ after, key b ≤ key a

theorem pick_append_singleton (key : α → β) (l : List α) (a : α) :
    pick key (l ++ [a]) = step key (pick key l) a := by
  rw [pick, List.foldl_append]
  rfl

@[simp] theorem pick_eq_none : pick key l = none ↔ l = [] := by
  induction l using List.reverseRecOn with
  | nil => exact ⟨fun _ => rfl, fun _ => rfl⟩
  | append_singleton l a ih =>
    rw [pick_append_singleton]
    rcases pick key l with _ | b
    · simp [step]
    · by_cases h : key b < key a <;> simp [step, h]

theorem IsFirstBest.mem (h : IsFirstBest key l a) : a ∈ l := by
  obtain ⟨before, after, rfl, -⟩ := h
  exact List.mem_append_right _ List.mem_cons_self

theorem IsFirstBest.le (h : IsFirstBest key l a) (hb : b ∈ l) : key b ≤ key a := by
  obtain ⟨before, after, rfl, hbefore, hafter⟩ := h
  rcases List.mem_append.mp hb with hb | hb
  · exact (hbefore b hb).le
  · rcases List.mem_cons.mp hb with rfl | hb
    · exact le_rfl
    · exact hafter b hb

theorem pick_isFirstBest (h : pick key l = some a) : IsFirstBest key l a := by
  induction l using List.reverseRecOn generalizing a with
  | nil => cases h
  | append_singleton l x ih =>
    rw [pick_append_singleton] at h
    rcases hl : pick key l with _ | b
    · rw [hl] at h
      obtain rfl := Option.some.inj h
      rw [pick_eq_none.mp hl]
      exact ⟨[], [], rfl, fun _ hb => (List.not_mem_nil hb).elim,
        fun _ hb => (List.not_mem_nil hb).elim⟩
    · have hbest := ih hl
      rw [hl, step] at h
      split at h
      · rename_i hlt
        obtain rfl := Option.some.inj h
        exact ⟨l, [], rfl, fun c hc => (hbest.le hc).trans_lt hlt,
          fun _ hb => (List.not_mem_nil hb).elim⟩
      · rename_i hle
        obtain rfl := Option.some.inj h
        obtain ⟨before, after, rfl, hbefore, hafter⟩ := hbest
        refine ⟨before, after ++ [x], by simp, hbefore, fun c hc => ?_⟩
        rcases List.mem_append.mp hc with hc | hc
        · exact hafter c hc
        · rw [List.mem_singleton.mp hc]
          exact le_of_not_gt hle

theorem exists_pick (key : α → β) (hb : b ∈ l) : ∃ a, pick key l = some a := by
  rcases h : pick key l with _ | a
  · rw [pick_eq_none.mp h] at hb
    exact (List.not_mem_nil hb).elim
  · exact ⟨a, rfl⟩

/-- In a list that is ordered by a relation, the best comes before all equals. -/
theorem IsFirstBest.before {r : α → α → Prop} (hl : l.Pairwise r) (h : IsFirstBest key l a)
    (hb : b ∈ l) : key b < key a ∨ key b = key a ∧ (b = a ∨ r a b) := by
  obtain ⟨before, after, rfl, hbefore, hafter⟩ := h
  rcases List.mem_append.mp hb with hb | hb
  · exact Or.inl (hbefore b hb)
  · rcases List.mem_cons.mp hb with rfl | hb
    · exact Or.inr ⟨rfl, Or.inl rfl⟩
    · rcases (hafter b hb).lt_or_eq with hlt | heq
      · exact Or.inl hlt
      · have hrest := (List.pairwise_append.mp hl).2.1
        exact Or.inr ⟨heq, Or.inr ((List.pairwise_cons.mp hrest).1 b hb)⟩

end Best
