import ArkSwap.Lib.Prog

/-! Programs that return unless they fail for a reason that is allowed for: whatever state
they begin in, or from a condition and to another. -/

namespace Prog

variable {ε σ α β : Type} {E : ε → Prop}

/-- A program fails for excused reasons only. -/
def Excused (E : ε → Prop) (x : Prog ε σ α) : Prop := ∀ s e t, x s = (.error e, t) → E e

/-- From a condition, a program returns with another or fails for an excused reason. -/
def Total (E : ε → Prop) (P : σ → Prop) (x : Prog ε σ α) (Q : α → σ → Prop) : Prop :=
  ∀ s, P s → (∀ a t, x s = (.ok a, t) → Q a t) ∧ ∀ e t, x s = (.error e, t) → E e

namespace Excused

theorem pure (a : α) : Excused E (pure a : Prog ε σ α) := by
  intro s e t h
  cases h

theorem fail {e : ε} (h : E e) : Excused E (fail e : Prog ε σ α) := by
  intro s e' t he
  cases he
  exact h

theorem get : Excused E (get : Prog ε σ σ) := by
  intro s e t h
  cases h

theorem modify (f : σ → σ) : Excused E (modify f : Prog ε σ Unit) := by
  intro s e t h
  cases h

theorem bind {x : Prog ε σ α} {f : α → Prog ε σ β} (hx : Excused E x) (hf : ∀ a, Excused E (f a)) :
    Excused E (x >>= f) := by
  intro s e t h
  rcases hxs : x s with ⟨e' | a, r⟩
  · rw [bind_of_error f hxs] at h
    cases h
    exact hx s _ _ hxs
  · rw [bind_of_ok f hxs] at h
    exact hf a r e t h

theorem onFailure {x : Prog ε σ α} (undo : σ → σ) (hx : Excused E x) :
    Excused E (onFailure x undo) := by
  intro s e t h
  rcases hxs : x s with ⟨e' | a, r⟩
  · rw [onFailure_of_error undo hxs] at h
    cases h
    exact hx s e r hxs
  · rw [onFailure_of_ok undo hxs] at h
    cases h

theorem forEach {f : α → Prog ε σ Unit} {as : List α} (hf : ∀ a ∈ as, Excused E (f a)) :
    Excused E (forEach f as) := by
  induction as with
  | nil => exact pure ()
  | cons a as ih =>
    apply bind (hf a List.mem_cons_self)
    intro _
    exact ih fun b hb => hf b (List.mem_cons_of_mem a hb)

end Excused

namespace Total

variable {P P' : σ → Prop} {Q Q' : α → σ → Prop} {R : β → σ → Prop} {F : σ → Prop}

theorem pure {a : α} (h : ∀ s, P s → Q a s) : Total E P (pure a) Q := by
  intro s hs
  constructor
  · intro b t hb
    cases hb
    exact h s hs
  · intro e t he
    cases he

theorem bind {x : Prog ε σ α} {f : α → Prog ε σ β} (hx : Total E P x Q)
    (hf : ∀ a, Total E (Q a) (f a) R) : Total E P (x >>= f) R := by
  intro s hs
  obtain ⟨hok, herr⟩ := hx s hs
  rcases hxs : x s with ⟨e | a, r⟩
  · rw [bind_of_error f hxs]
    constructor
    · intro b t hb
      cases hb
    · intro e' t he
      cases he
      exact herr e r hxs
  · rw [bind_of_ok f hxs]
    exact hf a r (hok a r hxs)

theorem conseq {x : Prog ε σ α} (hx : Total E P x Q) (hP : ∀ s, P' s → P s)
    (hQ : ∀ a s, Q a s → Q' a s) : Total E P' x Q' := by
  intro s hs
  obtain ⟨hok, herr⟩ := hx s (hP s hs)
  exact ⟨fun a t h => hQ a t (hok a t h), herr⟩

theorem of_excused {x : Prog ε σ α} (hx : Excused E x) (hq : Triple P x Q F) : Total E P x Q := by
  intro s hs
  exact ⟨(hq s hs).1, fun e t h => hx s e t h⟩

/-- An attempt returns the outcome, with what a triple says of it. -/
theorem attempt {x : Prog ε σ α} {E' : ε → Prop} (hx : Excused E x) (hq : Triple P x Q F) :
    Total E' P (attempt x) fun r s => (∀ a, r = .ok a → Q a s) ∧ ∀ e, r = .error e → F s ∧ E e := by
  intro s hs
  obtain ⟨hok, herr⟩ := hq s hs
  constructor
  · intro r t hr
    obtain ⟨hres, rfl⟩ := Prod.mk.inj hr
    have hres' : (x s).1 = r := Except.ok.inj hres
    constructor
    · intro a ha
      exact hok a _ (Prod.ext (hres'.trans ha) rfl)
    · intro e he
      have hrun : x s = (.error e, (x s).2) := Prod.ext (hres'.trans he) rfl
      exact ⟨herr e _ hrun, hx s e _ hrun⟩
  · intro e t he
    cases (Prod.mk.inj he).1

end Total

end Prog
