import Mathlib.Data.List.Nodup
import Mathlib.Tactic.Common

/-! Tables of rows under a key, as a database keeps them: at most one row for
each key, equal when they hold the same rows. -/

open Std

/-- Pairs of keys are ordered by their first components first. -/
instance instOrdProdLex {K L : Type} [Ord K] [Ord L] : Ord (K × L) := lexOrd

abbrev Table (K V : Type) [Ord K] : Type := ExtTreeMap K V compare

namespace Table

variable {K V : Type} [Ord K] [TransOrd K] [LawfulEqOrd K] {t u : Table K V} {k a : K} {v x : V}

theorem get_insert [DecidableEq K] : (t.insert k v)[a]? = if a = k then some v else t[a]? := by
  rw [ExtTreeMap.getElem?_insert]
  by_cases h : a = k
  · rw [if_pos h, if_pos (by rw [h]; exact ReflCmp.compare_self)]
  · rw [if_neg h, if_neg fun hc => h (LawfulEqCmp.eq_of_compare hc).symm]

theorem get_insertIfNew [DecidableEq K] :
    (t.insertIfNew k v)[a]? = if a = k ∧ t[k]? = none then some v else t[a]? := by
  rw [ExtTreeMap.getElem?_insertIfNew]
  by_cases h : a = k ∧ t[k]? = none
  · obtain ⟨rfl, hn⟩ := h
    have hnew : compare a a = .eq ∧ a ∉ t := ⟨ReflCmp.compare_self, by simpa using hn⟩
    have hself : a = a ∧ t[a]? = none := ⟨rfl, hn⟩
    rw [if_pos hnew, if_pos hself]
  · rw [if_neg h, if_neg]
    rintro ⟨hc, hn⟩
    exact h ⟨(LawfulEqCmp.eq_of_compare hc).symm, by simpa using hn⟩

theorem insertIfNew_of_get [DecidableEq K] (h : t[k]? = some x) : t.insertIfNew k v = t := by
  refine ExtTreeMap.ext_getElem? fun a => ?_
  rw [get_insertIfNew, if_neg]
  rintro ⟨-, hnone⟩
  rw [h] at hnone
  cases hnone

theorem get_modify [DecidableEq K] {f : V → V} :
    (t.modify k f)[a]? = if a = k then t[k]?.map f else t[a]? := by
  rw [ExtTreeMap.getElem?_modify]
  by_cases h : a = k
  · rw [if_pos h, if_pos (by rw [h]; exact ReflCmp.compare_self)]
  · rw [if_neg h, if_neg fun hc => h (LawfulEqCmp.eq_of_compare hc).symm]

omit [LawfulEqOrd K] in
theorem contains_of_get (h : t[k]? = some v) : t.contains k = true := by
  rw [ExtTreeMap.contains_eq_isSome_getElem?, h]
  rfl

theorem contains_insert [DecidableEq K] : (t.insert k v).contains a = (decide (a = k) || t.contains a) := by
  rw [ExtTreeMap.contains_eq_isSome_getElem?, ExtTreeMap.contains_eq_isSome_getElem?, get_insert]
  by_cases h : a = k
  · rw [if_pos h, decide_eq_true h]
    rfl
  · rw [if_neg h, decide_eq_false h, Bool.false_or]

theorem contains_insertIfNew [DecidableEq K] :
    (t.insertIfNew k v).contains a = (decide (a = k) || t.contains a) := by
  rw [ExtTreeMap.contains_eq_isSome_getElem?, ExtTreeMap.contains_eq_isSome_getElem?,
    get_insertIfNew]
  by_cases h : a = k
  · rw [decide_eq_true h, h]
    rcases t[k]? with _ | x
    · simp
    · simp
  · rw [if_neg fun hk => h hk.1, decide_eq_false h, Bool.false_or]

theorem contains_modify [DecidableEq K] {f : V → V} : (t.modify k f).contains a = t.contains a := by
  rw [ExtTreeMap.contains_eq_isSome_getElem?, ExtTreeMap.contains_eq_isSome_getElem?, get_modify]
  by_cases h : a = k
  · rw [if_pos h, Option.isSome_map, h]
  · rw [if_neg h]

def deleteWhere (t : Table K V) (p : K → V → Bool) : Table K V := t.filter fun k v => !p k v

theorem get_deleteWhere {p : K → V → Bool} :
    (t.deleteWhere p)[a]? = some v ↔ t[a]? = some v ∧ p a v = false := by
  rw [deleteWhere, ExtTreeMap.getElem?_filter', Option.filter_eq_some_iff]
  simp

/-- The rows in the order of their keys. -/
def rows (t : Table K V) : List V := t.toList.map Prod.snd

theorem mem_rows : v ∈ t.rows ↔ ∃ k : K, t[k]? = some v := by
  rw [rows, List.mem_map]
  constructor
  · rintro ⟨⟨k, x⟩, hk, rfl⟩
    exact ⟨k, ExtTreeMap.mem_toList_iff_getElem?_eq_some.mp hk⟩
  · rintro ⟨k, hk⟩
    exact ⟨(k, v), ExtTreeMap.mem_toList_iff_getElem?_eq_some.mpr hk, rfl⟩

theorem forall_get {P : K → V → Prop} : (∀ k v, t[k]? = some v → P k v) ↔ ∀ e ∈ t.toList, P e.1 e.2 :=
  ⟨fun h e he => h e.1 e.2 (ExtTreeMap.mem_toList_iff_getElem?_eq_some.mp he),
    fun h k v hk => h (k, v) (ExtTreeMap.mem_toList_iff_getElem?_eq_some.mpr hk)⟩

/-- Every row carries the key it stands under. -/
def Keyed (t : Table K V) (f : V → K) : Prop := ∀ (k : K) (v : V), t[k]? = some v → f v = k

theorem Keyed.rows_nodup {f : V → K} (h : t.Keyed f) : (t.rows.map f).Nodup := by
  have hkeys : t.rows.map f = t.keys := by
    rw [rows, List.map_map, ← ExtTreeMap.map_fst_toList_eq_keys]
    exact List.map_congr_left fun e he =>
      h e.1 e.2 (ExtTreeMap.mem_toList_iff_getElem?_eq_some.mp he)
  rw [hkeys]
  exact ExtTreeMap.nodup_keys

/-- The rows that entries with keys of their own ask for are these entries' values. -/
theorem Keyed.rows_perm {E T : Type} {f : V → K} {value : V → T} {entries : List E} {key : E → K}
    {asked : E → Option T} (h : t.Keyed f) (hkeys : (entries.map key).Nodup)
    (hrow : ∀ v ∈ t.rows, ∃ e ∈ entries, key e = f v ∧ asked e = some (value v))
    (hentry : ∀ e ∈ entries, ∀ x, asked e = some x → ∃ v ∈ t.rows, f v = key e ∧ value v = x) :
    (t.rows.map value).Perm (entries.filterMap asked) := by
  have hvalues : (t.rows.map fun v => (f v, value v)).Perm
      (entries.filterMap fun e => (asked e).map fun x => (key e, x)) := by
    rw [List.perm_ext_iff_of_nodup]
    · rintro ⟨k, x⟩
      simp only [List.mem_map, List.mem_filterMap, Option.map_eq_some_iff, Prod.mk.injEq]
      constructor
      · rintro ⟨v, hv, rfl, rfl⟩
        obtain ⟨e, he, hkey, hasked⟩ := hrow v hv
        exact ⟨e, he, value v, hasked, hkey, rfl⟩
      · rintro ⟨e, he, y, hasked, rfl, rfl⟩
        obtain ⟨v, hv, hkey, hvalue⟩ := hentry e he y hasked
        exact ⟨v, hv, hkey, hvalue⟩
    · refine List.Nodup.of_map Prod.fst ?_
      rw [List.map_map]
      exact h.rows_nodup
    · refine List.pairwise_filterMap.mpr ((List.pairwise_map.mp hkeys).imp fun hne x hx y hy => ?_)
      obtain ⟨-, -, rfl⟩ := Option.map_eq_some_iff.mp hx
      obtain ⟨-, -, rfl⟩ := Option.map_eq_some_iff.mp hy
      exact fun heq => hne (Prod.mk.inj heq).1
  have hsnd := hvalues.map Prod.snd
  rw [List.map_map, List.map_filterMap] at hsnd
  simp only [Option.map_map, Function.comp_def, Option.map_id'] at hsnd
  exact hsnd

section Fold

variable {f : V → K} {vs : List V}

theorem get_foldl_insert [DecidableEq K]
    (h : (vs.foldl (fun t v => t.insert (f v) v) t)[a]? = some v) :
    v ∈ vs ∧ f v = a ∨ t[a]? = some v := by
  induction vs generalizing t with
  | nil => exact Or.inr h
  | cons w vs ih =>
    rcases ih h with ⟨hv, hkey⟩ | hget
    · exact Or.inl ⟨List.mem_cons_of_mem w hv, hkey⟩
    · rw [get_insert] at hget
      split at hget
      · rename_i hw
        obtain rfl := Option.some.inj hget
        exact Or.inl ⟨List.mem_cons_self, hw.symm⟩
      · exact Or.inr hget

theorem get_foldl_insert_of_mem [DecidableEq K] (h : v ∈ vs ∨ t[f v]? = some x) :
    ∃ w, (vs.foldl (fun t v => t.insert (f v) v) t)[f v]? = some w := by
  induction vs generalizing t x with
  | nil =>
    rcases h with h | h
    · simp at h
    · exact ⟨x, h⟩
  | cons w vs ih =>
    rw [List.foldl_cons]
    rcases h with h | h
    · rcases List.mem_cons.mp h with rfl | h
      · exact ih (x := v) (Or.inr (by rw [get_insert, if_pos rfl]))
      · exact ih (x := x) (Or.inl h)
    · by_cases hw : f v = f w
      · exact ih (x := w) (Or.inr (by rw [get_insert, if_pos hw]))
      · exact ih (Or.inr (by rw [get_insert, if_neg hw, h]))

theorem foldl_insert_rows [DecidableEq K] (h : ∀ k v, t[k]? = some v → f v = k) :
    t.rows.foldl (fun t v => t.insert (f v) v) ∅ = t := by
  refine ExtTreeMap.ext_getElem? fun a => ?_
  rcases hget : t[a]? with _ | v
  · rw [Option.eq_none_iff_forall_ne_some]
    intro v hv
    rcases get_foldl_insert hv with ⟨hrow, hkey⟩ | hempty
    · obtain ⟨k, hk⟩ := mem_rows.mp hrow
      rw [← hkey, h k v hk, hk] at hget
      cases hget
    · simp at hempty
  · have hkey := h a v hget
    obtain ⟨w, hw⟩ := get_foldl_insert_of_mem (t := (∅ : Table K V)) (f := f) (x := v)
      (Or.inl (mem_rows.mpr ⟨a, hget⟩))
    rw [hkey] at hw
    rw [hw]
    rcases get_foldl_insert hw with ⟨hrow, hkeyw⟩ | hempty
    · obtain ⟨k, hk⟩ := mem_rows.mp hrow
      rw [h k w hk] at hkeyw
      rw [hkeyw, hget] at hk
      exact hk.symm
    · simp at hempty

end Fold

end Table
