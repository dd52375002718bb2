import Mathlib.Data.List.Basic
import Mathlib.Tactic.Common

/-! A value kept twice, each time with the height at which it was last set: one
copy follows every write, the other holds on to a value that was started before
and to one that was set at a greater height. -/

namespace Guarded

variable {V : Type}

inductive Write (V : Type) where
  | start
  | set (v : V) (height : Nat)
  deriving DecidableEq

def Write.height : Write V → Option Nat
  | .start => none
  | .set _ n => some n

def Write.isStart : Write V → Bool
  | .start => true
  | .set _ _ => false

def follow (zero : V) (m : Option (V × Option Nat)) : Write V → Option (V × Option Nat)
  | .start => some (zero, none)
  | .set v n => m.map fun _ => (v, some n)

def hold (zero : V) (m : Option (V × Option Nat)) : Write V → Option (V × Option Nat)
  | .start => m.or (some (zero, none))
  | .set v n => m.map fun e => if e.2.all (· ≤ n) then (v, some n) else e

section Settled

variable [DecidableEq V] (zero : V) (m : Option (V × Option Nat))

/-- The last write is not below the height of what was there first, or it starts what
is not yet set. -/
def settled (ws : List (Write V)) : Bool :=
  match ws.getLast? with
  | none => true
  | some (.set _ n) => m.all fun e => e.2.all (· ≤ n)
  | some .start => m.all (fun e => decide (e = (zero, none))) && ws.all Write.isStart

/-- The same, where the copy that holds on has had only the first of two lists of
writes: the second ends with what was there before both. -/
def restated (ws us : List (Write V)) : Bool :=
  match us.getLast? with
  | none => settled zero m ws
  | some (.set v n) => decide (m = some (v, some n))
  | some .start => decide (m = some (zero, none)) && ws.all Write.isStart

end Settled

variable {zero v : V} {n : Nat} {m m' : Option (V × Option Nat)} {w : Write V}
variable {ws us : List (Write V)}

theorem isSome_follow : (follow zero m w).isSome = (m.isSome || w.isStart) := by
  rcases w with _ | ⟨v, n⟩
  · simp [follow, Write.isStart]
  · simp [follow, Write.isStart]

theorem isSome_hold : (hold zero m w).isSome = (m.isSome || w.isStart) := by
  rcases w with _ | ⟨v, n⟩
  · simp [hold, Write.isStart]
  · simp [hold, Write.isStart]

theorem isSome_foldl_follow :
    (ws.foldl (follow zero) m).isSome = (m.isSome || ws.any Write.isStart) := by
  induction ws generalizing m with
  | nil => simp
  | cons w ws ih => rw [List.foldl_cons, ih, isSome_follow, List.any_cons, Bool.or_assoc]

theorem isSome_foldl_hold :
    (ws.foldl (hold zero) m).isSome = (m.isSome || ws.any Write.isStart) := by
  induction ws generalizing m with
  | nil => simp
  | cons w ws ih => rw [List.foldl_cons, ih, isSome_hold, List.any_cons, Bool.or_assoc]

theorem hold_height (hm : ∀ e ∈ m, e.2.all (· ≤ n) = true) (hws : ∀ w ∈ ws, ∀ k ∈ w.height, k ≤ n) :
    ∀ e ∈ ws.foldl (hold zero) m, e.2.all (· ≤ n) = true := by
  induction ws generalizing m with
  | nil => exact hm
  | cons w ws ih =>
    refine ih (fun e he => ?_) fun u hu => hws u (List.mem_cons_of_mem w hu)
    rcases w with _ | ⟨v, k⟩
    · rcases m with _ | e'
      · cases he
        rfl
      · exact hm e he
    · obtain ⟨e', he', rfl⟩ := Option.map_eq_some_iff.mp he
      split
      · exact decide_eq_true (hws (.set v k) List.mem_cons_self k rfl)
      · exact hm e' he'

theorem hold_below (hm : m = some (v, some n)) (hws : ∀ w ∈ ws, ∀ k ∈ w.height, k < n) :
    ws.foldl (hold zero) m = m := by
  induction ws with
  | nil => rfl
  | cons w ws ih =>
    have hsame : hold zero m w = m := by
      rw [hm]
      rcases w with _ | ⟨u, k⟩
      · rfl
      · have hk : ¬n ≤ k := Nat.not_le_of_lt (hws (.set u k) List.mem_cons_self k rfl)
        simp [hold, hk]
    rw [List.foldl_cons, hsame]
    exact ih fun u hu => hws u (List.mem_cons_of_mem w hu)

theorem hold_starts (hws : ws.all Write.isStart = true) :
    ws.foldl (hold zero) (some (zero, none)) = some (zero, none) := by
  induction ws with
  | nil => rfl
  | cons w ws ih =>
    rw [List.all_cons, Bool.and_eq_true] at hws
    rcases w with _ | ⟨v, n⟩
    · exact ih hws.2
    · cases hws.1

theorem hold_concat_start [DecidableEq V] (hm : m.all (fun e => decide (e = (zero, none))) = true)
    (hws : ws.all Write.isStart = true) :
    (ws ++ [Write.start]).foldl (hold zero) m = some (zero, none) := by
  have hall : (ws ++ [Write.start]).all Write.isStart = true := by
    rw [List.all_append, hws]
    rfl
  rcases m with _ | e
  · rcases hws' : ws ++ [Write.start] with _ | ⟨w, us⟩
    · exact (List.append_ne_nil_of_right_ne_nil ws (List.cons_ne_nil _ _) hws').elim
    · rw [hws', List.all_cons, Bool.and_eq_true] at hall
      rcases w with _ | ⟨v, n⟩
      · exact hold_starts hall.2
      · cases hall.1
  · obtain rfl : e = (zero, none) := of_decide_eq_true hm
    exact hold_starts hall

theorem follow_concat_start : (ws ++ [Write.start]).foldl (follow zero) m = some (zero, none) := by
  rw [List.foldl_append]
  rfl

theorem follow_concat_set (h : (ws.foldl (follow zero) m).isSome = true) :
    (ws ++ [Write.set v n]).foldl (follow zero) m = some (v, some n) := by
  obtain ⟨e, he⟩ := Option.isSome_iff_exists.mp h
  rw [List.foldl_append, he]
  rfl

variable [DecidableEq V]

/-- The copies agree after writes of growing heights that are settled. -/
theorem follow_eq_hold (hgrow : ws.Pairwise fun w u => ∀ k ∈ w.height, ∀ n ∈ u.height, k ≤ n)
    (h : settled zero m ws = true) : ws.foldl (follow zero) m = ws.foldl (hold zero) m := by
  rcases List.eq_nil_or_concat' ws with rfl | ⟨ws, w, rfl⟩
  · rfl
  · rw [settled, List.getLast?_concat] at h
    rcases w with _ | ⟨v, n⟩
    · rw [Bool.and_eq_true, List.all_append, Bool.and_eq_true] at h
      rw [follow_concat_start, hold_concat_start h.1 h.2.1]
    · have hheights : ∀ u ∈ ws, ∀ k ∈ u.height, k ≤ n := fun u hu k hk =>
        (List.pairwise_append.mp hgrow).2.2 u hu (.set v n) List.mem_cons_self k hk n rfl
      have hm : ∀ e ∈ m, e.2.all (· ≤ n) = true := fun e he => by
        rw [Option.mem_def.mp he] at h
        exact h
      rw [List.foldl_append, List.foldl_append]
      have hsome : (ws.foldl (follow zero) m).isSome = (ws.foldl (hold zero) m).isSome :=
        isSome_foldl_follow.trans isSome_foldl_hold.symm
      have hlow : ∀ e ∈ ws.foldl (hold zero) m, e.2.all (· ≤ n) = true := hold_height hm hheights
      rcases hf : ws.foldl (follow zero) m with _ | e <;>
        rcases hg : ws.foldl (hold zero) m with _ | e'
      · rfl
      · rw [hf, hg] at hsome
        cases hsome
      · rw [hf, hg] at hsome
        cases hsome
      · change some (v, some n) = some (if e'.2.all (· ≤ n) = true then (v, some n) else e')
        rw [if_pos (hlow e' hg)]

theorem follow_eq_hold_of_restated
    (hgrow : ws.Pairwise fun w u => ∀ k ∈ w.height, ∀ n ∈ u.height, k ≤ n)
    (hbelow : ∀ w ∈ ws, ∀ k ∈ w.height, ∀ u ∈ us, ∀ n ∈ u.height, k < n)
    (h : restated zero m ws us = true) :
    (ws ++ us).foldl (follow zero) m = ws.foldl (hold zero) m := by
  rcases List.eq_nil_or_concat' us with rfl | ⟨us, u, rfl⟩
  · rw [List.append_nil]
    exact follow_eq_hold hgrow h
  · rw [restated, List.getLast?_concat] at h
    rw [← List.append_assoc]
    rcases u with _ | ⟨v, n⟩
    · rw [Bool.and_eq_true] at h
      rw [follow_concat_start, of_decide_eq_true h.1, hold_starts h.2]
    · have hm : m = some (v, some n) := of_decide_eq_true h
      rw [hold_below hm fun w hw k hk => hbelow w hw k hk (.set v n)
        (List.mem_append_right us List.mem_cons_self) n rfl]
      rw [follow_concat_set, hm]
      rw [isSome_foldl_follow, hm]
      rfl

end Guarded
