import Mathlib.Tactic.Common

/-! Programs that either return or fail with a reason, and the inversion of
a successful run into the successful runs of its parts. -/

namespace Checked

universe u v

variable {ε : Type u} {α β : Type v}

/-- A guard: nothing happens when the condition holds. -/
def require (p : Prop) [Decidable p] (reason : ε) : Except ε Unit :=
  if p then .ok () else .error reason

@[simp] theorem bind_eq_ok {x : Except ε α} {f : α → Except ε β} {b : β} :
    x >>= f = .ok b ↔ ∃ a, x = .ok a ∧ f a = .ok b := by
  cases x with
  | error e => simp [bind, Except.bind]
  | ok a => simp [bind, Except.bind]

@[simp] theorem ok_bind (a : α) (f : α → Except ε β) : (Except.ok a >>= f) = f a := rfl

@[simp] theorem error_bind (e : ε) (f : α → Except ε β) :
    (Except.error e >>= f) = .error e := rfl

@[simp] theorem pure_eq_ok (a : α) : (pure a : Except ε α) = .ok a := rfl

@[simp] theorem require_eq_ok {p : Prop} [Decidable p] {e : ε} {u : Unit} :
    require p e = .ok u ↔ p := by
  by_cases h : p <;> simp [require, h]

theorem require_of {p : Prop} [Decidable p] (h : p) (e : ε) : require p e = .ok () := by
  simp [h]

theorem require_error_of_not {p : Prop} [Decidable p] (h : ¬ p) (e : ε) :
    require p e = .error e := if_neg h

@[simp] theorem ite_eq_ok {p : Prop} [Decidable p] {x y : Except ε α} {a : α} :
    (if p then x else y) = .ok a ↔ p ∧ x = .ok a ∨ ¬ p ∧ y = .ok a := by
  by_cases h : p <;> simp [h]

theorem exists_ok {x : Except ε α} (h : x.isOk = true) : ∃ a, x = .ok a := by
  cases x with
  | error e => cases h
  | ok a => exact ⟨a, rfl⟩

/-- A low-level call whose failure is reported with the caller's own reason. -/
def orFail (x : Except ε α) (reason : ε) : Except ε α :=
  match x with
  | .ok a => .ok a
  | .error _ => .error reason

@[simp] theorem orFail_eq_ok {x : Except ε α} {reason : ε} {a : α} :
    orFail x reason = .ok a ↔ x = .ok a := by
  cases x <;> simp [orFail]

/-- A filter and a fold none of whose steps fails. -/
theorem filterM_ok {γ : Type} {l : List γ} {f : γ → Except ε Bool} {p : γ → Bool}
    (h : ∀ c ∈ l, f c = .ok (p c)) : l.filterM f = .ok (l.filter p) := by
  have haux : ∀ acc, List.filterAuxM f l acc = .ok ((l.filter p).reverse ++ acc) := by
    induction l with
    | nil => exact fun acc => rfl
    | cons c l ih =>
      intro acc
      rw [List.filterAuxM, h c List.mem_cons_self, ok_bind,
        ih fun b hb => h b (List.mem_cons_of_mem c hb)]
      rcases hc : p c with _ | _ <;> simp [hc]
  rw [List.filterM, haux, ok_bind]
  simp

theorem foldlM_ok {γ : Type} {l : List γ} {f : α → γ → Except ε α} {g : α → γ → α}
    (h : ∀ c ∈ l, ∀ a, f a c = .ok (g a c)) (a : α) : l.foldlM f a = .ok (l.foldl g a) := by
  induction l generalizing a with
  | nil => rfl
  | cons c l ih =>
    rw [List.foldlM_cons, h c List.mem_cons_self, ok_bind,
      ih fun b hb => h b (List.mem_cons_of_mem c hb)]
    rfl

/-- What every step of a fold keeps holds of its result. -/
theorem foldlM_inv {γ : Type} {l : List γ} {f : α → γ → Except ε α} (P : α → Prop)
    (hstep : ∀ c ∈ l, ∀ s t, P s → f s c = .ok t → P t) {s t : α} (hs : P s)
    (h : l.foldlM f s = .ok t) : P t := by
  induction l generalizing s with
  | nil =>
    obtain rfl := Except.ok.inj h
    exact hs
  | cons c l ih =>
    rw [List.foldlM_cons, bind_eq_ok] at h
    obtain ⟨u, hu, h⟩ := h
    exact ih (fun c' hc => hstep c' (List.mem_cons_of_mem c hc))
      (hstep c List.mem_cons_self s u hs hu) h

/-- A failed run leaves the state it started from. -/
def attempt (s : α) : Except ε α → α
  | .ok t => t
  | .error _ => s

@[simp] theorem attempt_ok (s t : α) : attempt s (.ok t : Except ε α) = t := rfl

@[simp] theorem attempt_error (s : α) (e : ε) : attempt s (.error e : Except ε α) = s := rfl

end Checked
