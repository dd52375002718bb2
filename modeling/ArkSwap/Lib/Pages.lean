import Mathlib.Data.List.Sort
import Mathlib.Order.Lattice

/-! Listings with the greatest key first and their pages: what a reader of one page after the
other gets to see of a listing that grows at its head, and the head of several listings put
together. -/

namespace Pages

variable {α β K : Type} {l m : List α} {x : α} {limit n : ℕ}

def page (l : List α) (limit offset : ℕ) : List α := (l.drop offset).take limit

theorem page_map (f : α → β) (l : List α) (limit offset : ℕ) :
    page (l.map f) limit offset = (page l limit offset).map f := by
  rw [page, page, List.map_take, List.map_drop]

section Walk

theorem mem_page {i offset : ℕ} (hi : l[i]? = some x) (hlow : offset ≤ i) (hhigh : i < offset + limit) :
    x ∈ page l limit offset := by
  refine List.mem_of_getElem? (i := i - offset) ?_
  rw [page, List.getElem?_take_of_lt (by omega), List.getElem?_drop, Nat.add_sub_cancel' hlow, hi]

variable {listing : ℕ → List α}

/-- What the reader has not seen yet lies behind the pages it has read. -/
theorem seen_or_behind (hgrow : ∀ k, listing k <:+ listing (k + 1)) (hx : x ∈ listing 0) (n : ℕ) :
    (∃ k < n, x ∈ page (listing k) limit (k * limit)) ∨
      ∃ i, n * limit ≤ i ∧ (listing n)[i]? = some x := by
  induction n with
  | zero =>
    obtain ⟨i, hi⟩ := List.mem_iff_getElem?.mp hx
    exact .inr ⟨i, by omega, hi⟩
  | succ n ih =>
    rcases ih with ⟨k, hk, hseen⟩ | ⟨i, hi, hget⟩
    · exact .inl ⟨k, by omega, hseen⟩
    · by_cases hpage : i < n * limit + limit
      · exact .inl ⟨n, by omega, mem_page hget hi hpage⟩
      · obtain ⟨new, hnew⟩ := hgrow n
        refine .inr ⟨new.length + i, ?_, ?_⟩
        · rw [Nat.succ_mul]
          omega
        · rw [← hnew, List.getElem?_append_right (by omega), Nat.add_sub_cancel_left, hget]

/-- A reader who goes on until a page is not full has seen all that was there when it began. -/
theorem walk_covers (hgrow : ∀ k, listing k <:+ listing (k + 1)) (hx : x ∈ listing 0)
    (hlast : (page (listing n) limit (n * limit)).length < limit) :
    ∃ k ≤ n, x ∈ page (listing k) limit (k * limit) := by
  rcases seen_or_behind hgrow hx n with ⟨k, hk, hseen⟩ | ⟨i, hi, hget⟩
  · exact ⟨k, hk.le, hseen⟩
  · refine ⟨n, le_refl n, mem_page hget hi ?_⟩
    obtain ⟨hlt, -⟩ := List.getElem?_eq_some_iff.mp hget
    rw [page, List.length_take, List.length_drop] at hlast
    omega

/-- The same where only what the rows say of themselves lasts. -/
theorem walk_covers_rows {rows : ℕ → List α} {value : α → β}
    (hgrow : ∀ k, (rows k).map value <:+ (rows (k + 1)).map value) (hx : x ∈ rows 0)
    (hlast : (page (rows n) limit (n * limit)).length < limit) :
    ∃ k ≤ n, ∃ y ∈ page (rows k) limit (k * limit), value y = value x := by
  have hshort : (page ((rows n).map value) limit (n * limit)).length < limit := by
    rwa [page_map, List.length_map]
  obtain ⟨k, hk, hseen⟩ := walk_covers hgrow (List.mem_map_of_mem hx) hshort
  rw [page_map] at hseen
  obtain ⟨y, hy, hvalue⟩ := List.mem_map.mp hseen
  exact ⟨k, hk, y, hy, hvalue⟩

end Walk

section Listing

variable [LinearOrder K] {key : α → K}

/-- The rows with the greatest key first. -/
def newestFirst (key : α → K) (rows : List α) : List α := rows.insertionSort fun r s => key s ≤ key r

theorem newestFirst_perm (key : α → K) (l : List α) : (newestFirst key l).Perm l :=
  List.perm_insertionSort _ l

theorem mem_newestFirst : x ∈ newestFirst key l ↔ x ∈ l := (newestFirst_perm key l).mem_iff

theorem newestFirst_sorted (key : α → K) (l : List α) :
    (newestFirst key l).Pairwise fun r s => key s ≤ key r :=
  haveI : Std.Total fun r s : α => key s ≤ key r := ⟨fun r s => le_total (key s) (key r)⟩
  haveI : IsTrans α fun r s => key s ≤ key r := ⟨fun _ _ _ h h' => h'.trans h⟩
  List.pairwise_insertionSort _ l

theorem newestFirst_strict (hkeys : (l.map key).Nodup) :
    (newestFirst key l).Pairwise fun r s => key s < key r := by
  have hnodup : ((newestFirst key l).map key).Nodup :=
    ((newestFirst_perm key l).map key).nodup_iff.mpr hkeys
  exact (newestFirst_sorted key l).imp₂ (fun _ _ hle hne => lt_of_le_of_ne hle (Ne.symm hne))
    (List.pairwise_map.mp hnodup)

theorem newestFirst_eq (hperm : l.Perm m) (hm : m.Pairwise fun r s => key s < key r) :
    newestFirst key l = m := by
  have hkeys : (m.map key).Nodup := List.pairwise_map.mpr (hm.imp ne_of_gt)
  refine List.Perm.eq_of_pairwise (fun a b ha hb hab hba => ?_) (newestFirst_sorted key l)
    (hm.imp le_of_lt) ((newestFirst_perm key l).trans hperm)
  have ha' : a ∈ m := hperm.mem_iff.mp (mem_newestFirst.mp ha)
  exact List.inj_on_of_nodup_map hkeys ha' hb (le_antisymm hba hab)

theorem newestFirst_map (f : α → β) (key : β → K) (l : List α) :
    newestFirst key (l.map f) = (newestFirst (fun r => key (f r)) l).map f :=
  (List.map_insertionSort _ _ f l fun _ _ _ _ => Iff.rfl).symm

theorem newestFirst_filter (hkeys : (l.map key).Nodup) (p : α → Bool) :
    newestFirst key (l.filter p) = (newestFirst key l).filter p :=
  newestFirst_eq ((newestFirst_perm key l).symm.filter p) ((newestFirst_strict hkeys).filter p)

/-- Keys that order the rows alike list them alike. -/
theorem newestFirst_congr {K' : Type} [LinearOrder K'] {key' : α → K'} (hkeys : (l.map key).Nodup)
    (h : ∀ r ∈ l, ∀ s ∈ l, key r < key s → key' r < key' s) :
    newestFirst key' l = newestFirst key l := by
  refine newestFirst_eq (newestFirst_perm key l).symm ((newestFirst_strict hkeys).imp_of_mem ?_)
  exact fun hr hs hlt => h _ (mem_newestFirst.mp hs) _ (mem_newestFirst.mp hr) hlt

/-- Listings of rows that correspond, and are ordered alike, correspond row by row. -/
theorem newestFirst_forall₂ {K' : Type} [LinearOrder K'] (key : α → K) (key' : β → K') {R : α → β → Prop}
    {m : List β} (h : List.Forall₂ R l m) (hkeys : (l.map key).Nodup)
    (horder : ∀ x y x' y', R x y → R x' y' → key x < key x' → key' y < key' y') :
    List.Forall₂ R (newestFirst key l) (newestFirst key' m) := by
  obtain ⟨hlength, hrelated⟩ := List.forall₂_iff_zip.mp h
  have hleft : newestFirst key l = (newestFirst (fun z : α × β => key z.1) (l.zip m)).map Prod.fst := by
    rw [← newestFirst_map, List.map_fst_zip hlength.le]
  have hright : newestFirst key' m = (newestFirst (fun z : α × β => key' z.2) (l.zip m)).map Prod.snd := by
    rw [← newestFirst_map, List.map_snd_zip hlength.ge]
  have hsame : newestFirst (fun z : α × β => key' z.2) (l.zip m) =
      newestFirst (fun z => key z.1) (l.zip m) := by
    refine newestFirst_congr ?_ fun z hz z' hz' hlt => ?_
    · rw [← List.map_fst_zip hlength.le, List.map_map] at hkeys
      exact hkeys
    · exact horder z.1 z.2 z'.1 z'.2 (hrelated hz) (hrelated hz') hlt
  rw [hleft, hright, hsame, List.forall₂_map_left_iff, List.forall₂_map_right_iff, List.forall₂_same]
  exact fun z hz => hrelated (mem_newestFirst.mp hz)

/-- Rows that stand for entries in the order of their keys are listed from the last on. -/
theorem newestFirst_entries {value : α → β} {entries : List (K × β)}
    (hperm : (l.map fun r => (key r, value r)).Perm entries)
    (hsorted : entries.Pairwise fun e e' => e.1 < e'.1) (q : β → Bool) :
    (newestFirst key (l.filter fun r => q (value r))).map value =
      ((entries.map Prod.snd).filter q).reverse := by
  have hfiltered : ((l.filter fun r => q (value r)).map fun r => (key r, value r)).Perm
      (entries.filter fun e => q e.2).reverse := by
    have hkept : ((l.map fun r => (key r, value r)).filter fun e => q e.2) =
        (l.filter fun r => q (value r)).map fun r => (key r, value r) := by
      rw [List.filter_map]
      rfl
    rw [← hkept]
    exact (hperm.filter _).trans (List.reverse_perm _).symm
  have hlisted : newestFirst Prod.fst _ = _ :=
    newestFirst_eq hfiltered (List.pairwise_reverse.mpr (hsorted.filter _))
  rw [newestFirst_map] at hlisted
  calc (newestFirst key (l.filter fun r => q (value r))).map value
      = ((newestFirst key (l.filter fun r => q (value r))).map fun r => (key r, value r)).map
          Prod.snd := by rw [List.map_map]; rfl
    _ = ((entries.map Prod.snd).filter q).reverse := by
      rw [hlisted, List.map_reverse, List.filter_map]; rfl

section Heads

theorem mem_take_filter {p : α → Bool} (hx : x ∈ l.take n) (hp : p x = true) :
    x ∈ (l.filter p).take n := by
  have hlen : ((l.take n).filter p).length ≤ n :=
    (List.length_filter_le _ _).trans (List.length_take_le n l)
  rw [← List.take_append_drop n l, List.filter_append, List.take_append, List.take_of_length_le hlen]
  exact List.mem_append_left _ (List.mem_filter.mpr ⟨hx, hp⟩)

theorem take_filter_of_head {p : α → Bool} (h : ∀ x ∈ l.take n, p x = true) :
    (l.filter p).take n = l.take n := by
  rcases Nat.le_total n l.length with hle | hle
  · rw [← List.take_append_drop n l, List.filter_append, List.filter_eq_self.mpr h,
      List.take_append_of_le_length (by rw [List.length_take, Nat.min_eq_left hle]),
      List.take_append_of_le_length (by rw [List.length_take, Nat.min_eq_left hle])]
  · rw [List.take_of_length_le hle] at h ⊢
    rw [List.filter_eq_self.mpr h, List.take_of_length_le hle]

section Kinds

variable (hkeys : (l.map key).Nodup) {kinds : List (α → Bool)}
variable (hapart : kinds.Pairwise fun p q => ∀ x ∈ l, p x = true → q x = false)

theorem of_mem_head {p : α → Bool} (hx : x ∈ (newestFirst key (l.filter p)).take limit) :
    x ∈ l ∧ p x = true :=
  List.mem_filter.mp (mem_newestFirst.mp (List.mem_of_mem_take hx))

include hkeys hapart

/-- The heads of the listings of several kinds have no row in common. -/
theorem heads_apart :
    (∀ x ∈ kinds.flatMap fun p => (newestFirst key (l.filter p)).take limit, x ∈ l) ∧
      ((kinds.flatMap fun p => (newestFirst key (l.filter p)).take limit).map key).Nodup := by
  have hmem : ∀ x ∈ kinds.flatMap fun p => (newestFirst key (l.filter p)).take limit, x ∈ l := by
    intro x hx
    obtain ⟨p, -, hx⟩ := List.mem_flatMap.mp hx
    exact (of_mem_head hx).1
  have hnodup : (kinds.flatMap fun p => (newestFirst key (l.filter p)).take limit).Nodup := by
    refine List.nodup_flatMap.mpr ⟨fun p _ => ?_, hapart.imp fun hpq x hx hx' => ?_⟩
    · refine List.Nodup.sublist (List.take_sublist limit _) ?_
      exact (newestFirst_perm key _).nodup_iff.mpr (hkeys.of_map.filter p)
    · obtain ⟨hxl, hpx⟩ := of_mem_head hx
      exact Bool.false_ne_true ((hpq x hxl hpx).symm.trans (of_mem_head hx').2)
  exact ⟨hmem, hnodup.map_on fun x hx y hy =>
    List.inj_on_of_nodup_map hkeys (hmem x hx) (hmem y hy)⟩

/-- The newest rows of several kinds are among the newest of each kind. -/
theorem newest_of_heads :
    (newestFirst key (kinds.flatMap fun p => (newestFirst key (l.filter p)).take limit)).take limit =
      (newestFirst key (l.filter fun x => kinds.any fun p => p x)).take limit := by
  classical
  set rows := l.filter fun x => kinds.any fun p => p x with hrows
  set heads := kinds.flatMap fun p => (newestFirst key (l.filter p)).take limit with hheads
  obtain ⟨hmem, hnodup⟩ : (∀ x ∈ heads, x ∈ l) ∧ (heads.map key).Nodup := heads_apart hkeys hapart
  have hrows_keys : (rows.map key).Nodup := hkeys.sublist (List.filter_sublist.map key)
  have hkind : ∀ p ∈ kinds, newestFirst key (l.filter p) = (newestFirst key rows).filter p := by
    intro p hp
    rw [← newestFirst_filter hrows_keys, hrows, List.filter_filter]
    refine congrArg _ (List.filter_congr fun x _ => ?_)
    rcases hpx : p x with _ | _
    · rfl
    · rw [Bool.true_and]
      exact (List.any_eq_true.mpr ⟨p, hp, hpx⟩).symm
  have hrow : ∀ x ∈ heads, x ∈ newestFirst key rows := by
    intro x hx
    obtain ⟨p, hp, hx'⟩ := List.mem_flatMap.mp hx
    exact mem_newestFirst.mpr (List.mem_filter.mpr
      ⟨hmem x hx, List.any_eq_true.mpr ⟨p, hp, (of_mem_head hx').2⟩⟩)
  have hfiltered : newestFirst key heads = (newestFirst key rows).filter (· ∈ heads) := by
    refine newestFirst_eq ?_ ((newestFirst_strict hrows_keys).filter _)
    refine (List.perm_ext_iff_of_nodup hnodup.of_map ?_).mpr fun x => ?_
    · exact ((newestFirst_perm key rows).nodup_iff.mpr hrows_keys.of_map).filter _
    · rw [List.mem_filter, decide_eq_true_iff]
      exact ⟨fun hx => ⟨hrow x hx, hx⟩, And.right⟩
  rw [hfiltered]
  refine take_filter_of_head fun x hx => decide_eq_true (List.mem_flatMap.mpr ?_)
  obtain ⟨-, hany⟩ := List.mem_filter.mp (mem_newestFirst.mp (List.mem_of_mem_take hx))
  obtain ⟨p, hp, hpx⟩ := List.any_eq_true.mp hany
  refine ⟨p, hp, ?_⟩
  rw [hkind p hp]
  exact mem_take_filter hx hpx

end Kinds

end Heads

end Listing

end Pages
