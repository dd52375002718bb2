import Mathlib.Data.List.Nodup
import Mathlib.Data.Option.Basic

/-! The full outer join of two lists over keys, each list with one row a key:
one row for every key of either list, with what each list has there. -/

namespace Join

variable {α β κ : Type} [DecidableEq κ] {f : α → κ} {g : β → κ} {l : List α} {r : List β}
  {x : Option α × Option β} {a : α}

def leftRows (f : α → κ) (g : β → κ) (r : List β) (a : α) : List (Option α × Option β) :=
  match r.filter fun b => f a = g b with
  | [] => [(some a, none)]
  | matched => matched.map fun b => (some a, some b)

/-- Every left row with its matches, or alone; then the right rows without a match. -/
def fullOuter (f : α → κ) (g : β → κ) (l : List α) (r : List β) : List (Option α × Option β) :=
  l.flatMap (leftRows f g r) ++
    (r.filter fun b => l.all fun a => f a ≠ g b).map fun b => (none, some b)

/-- The key of a joined row, from whichever side has one. -/
def key (f : α → κ) (g : β → κ) (x : Option α × Option β) : Option κ :=
  (x.1.map f).or (x.2.map g)

theorem mem_leftRows : x ∈ leftRows f g r a ↔
    (∃ b ∈ r, f a = g b ∧ x = (some a, some b)) ∨ (∀ b ∈ r, f a ≠ g b) ∧ x = (some a, none) := by
  unfold leftRows
  split
  · rename_i hnone
    have hmiss : ∀ b ∈ r, f a ≠ g b := by
      intro b hb hkey
      have hmem : b ∈ r.filter fun b => f a = g b :=
        List.mem_filter.mpr ⟨hb, decide_eq_true hkey⟩
      rw [hnone] at hmem
      exact (List.not_mem_nil hmem).elim
    constructor
    · intro hx
      exact Or.inr ⟨hmiss, List.mem_singleton.mp hx⟩
    · rintro (⟨b, hb, hkey, -⟩ | ⟨-, rfl⟩)
      · exact (hmiss b hb hkey).elim
      · exact List.mem_singleton_self _
  · rename_i hsome
    constructor
    · intro hx
      obtain ⟨b, hb, rfl⟩ := List.mem_map.mp hx
      obtain ⟨hb, hkey⟩ := List.mem_filter.mp hb
      exact Or.inl ⟨b, hb, of_decide_eq_true hkey, rfl⟩
    · rintro (⟨b, hb, hkey, rfl⟩ | ⟨hmiss, -⟩)
      · exact List.mem_map.mpr ⟨b, List.mem_filter.mpr ⟨hb, decide_eq_true hkey⟩, rfl⟩
      · refine (hsome (List.filter_eq_nil_iff.mpr fun b hb hkey => ?_)).elim
        exact hmiss b hb (of_decide_eq_true hkey)

theorem mem_fullOuter : x ∈ fullOuter f g l r ↔
    (∃ a ∈ l, ∃ b ∈ r, f a = g b ∧ x = (some a, some b)) ∨
    (∃ a ∈ l, (∀ b ∈ r, f a ≠ g b) ∧ x = (some a, none)) ∨
    ∃ b ∈ r, (∀ a ∈ l, f a ≠ g b) ∧ x = (none, some b) := by
  have hright : x ∈ ((r.filter fun b => l.all fun a => f a ≠ g b).map fun b =>
      ((none : Option α), some b)) ↔ ∃ b ∈ r, (∀ a ∈ l, f a ≠ g b) ∧ x = (none, some b) := by
    simp only [List.mem_map, List.mem_filter, List.all_eq_true, decide_eq_true_eq]
    constructor
    · rintro ⟨b, ⟨hb, hmiss⟩, rfl⟩
      exact ⟨b, hb, hmiss, rfl⟩
    · rintro ⟨b, hb, hmiss, rfl⟩
      exact ⟨b, ⟨hb, hmiss⟩, rfl⟩
  rw [fullOuter, List.mem_append, List.mem_flatMap, hright, ← or_assoc]
  refine or_congr_left ?_
  constructor
  · rintro ⟨a, ha, hx⟩
    rcases mem_leftRows.mp hx with ⟨b, hb, hkey, rfl⟩ | ⟨hmiss, rfl⟩
    · exact Or.inl ⟨a, ha, b, hb, hkey, rfl⟩
    · exact Or.inr ⟨a, ha, hmiss, rfl⟩
  · rintro (⟨a, ha, b, hb, hkey, rfl⟩ | ⟨a, ha, hmiss, rfl⟩)
    · exact ⟨a, ha, mem_leftRows.mpr (Or.inl ⟨b, hb, hkey, rfl⟩)⟩
    · exact ⟨a, ha, mem_leftRows.mpr (Or.inr ⟨hmiss, rfl⟩)⟩

theorem leftRows_key (hr : (r.map g).Nodup) : (leftRows f g r a).map (key f g) = [some (f a)] := by
  unfold leftRows
  split
  · rfl
  · rename_i hsome
    have hone : ((r.filter fun b => f a = g b).map g).Nodup :=
      hr.sublist (List.filter_sublist.map g)
    rcases hmatched : r.filter fun b => f a = g b with _ | ⟨b, _ | ⟨b', rest⟩⟩
    · exact (hsome hmatched).elim
    · rfl
    · rw [hmatched] at hone
      have hb : b ∈ r.filter fun b => f a = g b := by rw [hmatched]; simp
      have hb' : b' ∈ r.filter fun b => f a = g b := by rw [hmatched]; simp
      have hkey := of_decide_eq_true (List.mem_filter.mp hb).2
      have hkey' := of_decide_eq_true (List.mem_filter.mp hb').2
      simp [← hkey, ← hkey'] at hone

/-- Unique keys on both sides leave one row a key. -/
theorem fullOuter_key (hl : (l.map f).Nodup) (hr : (r.map g).Nodup) :
    ∃ keys : List κ, keys.Nodup ∧ (fullOuter f g l r).map (key f g) = keys.map some := by
  have hleft : (l.flatMap (leftRows f g r)).map (key f g) = (l.map f).map some := by
    rw [List.map_flatMap]
    simp only [leftRows_key hr]
    rw [List.map_map, ← List.map_eq_flatMap]
    rfl
  have hright : ((r.filter fun b => l.all fun a => f a ≠ g b).map fun b =>
      ((none : Option α), some b)).map (key f g) =
        ((r.filter fun b => l.all fun a => f a ≠ g b).map g).map some := by
    rw [List.map_map, List.map_map]
    rfl
  refine ⟨l.map f ++ (r.filter fun b => l.all fun a => f a ≠ g b).map g, ?_, ?_⟩
  swap
  · rw [fullOuter, List.map_append, hleft, hright, List.map_append]
  refine List.Nodup.append hl (hr.sublist (List.filter_sublist.map g)) ?_
  intro k hk hk'
  obtain ⟨a, ha, rfl⟩ := List.mem_map.mp hk
  obtain ⟨b, hb, hkey⟩ := List.mem_map.mp hk'
  exact of_decide_eq_true (List.all_eq_true.mp (List.mem_filter.mp hb).2 a ha) hkey.symm

end Join
