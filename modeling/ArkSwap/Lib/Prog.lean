import Mathlib.Tactic.Common

/-! Programs over a state that return a value or fail; a failure keeps the
state it was reached in. Triples carry one postcondition for a return and
one for a failure. -/

universe u

def Prog (ε σ : Type) (α : Type) : Type := σ → Except ε α × σ

namespace Prog

variable {ε σ α β : Type}

instance : Monad (Prog ε σ) where
  pure a := fun s => (.ok a, s)
  bind x f := fun s =>
    match x s with
    | (.ok a, t) => f a t
    | (.error e, t) => (.error e, t)

def fail (e : ε) : Prog ε σ α := fun s => (.error e, s)

def get : Prog ε σ σ := fun s => (.ok s, s)

def modify (f : σ → σ) : Prog ε σ Unit := fun s => (.ok (), f s)

/-- The steps of a loop over a list. -/
def forEach (f : α → Prog ε σ Unit) : List α → Prog ε σ Unit
  | [] => pure ()
  | a :: as => do
      f a
      forEach f as

/-- Go on after a failure, with the failure as a value. -/
def attempt (x : Prog ε σ α) : Prog ε σ (Except ε α) := fun s => (.ok (x s).1, (x s).2)

/-- Change the state when a program fails, as a transaction does that is
rolled back. -/
def onFailure (x : Prog ε σ α) (undo : σ → σ) : Prog ε σ α := fun s =>
  match x s with
  | (.ok a, t) => (.ok a, t)
  | (.error e, t) => (.error e, undo t)

theorem pure_apply (a : α) (s : σ) : (pure a : Prog ε σ α) s = (.ok a, s) := rfl

theorem bind_of_ok {x : Prog ε σ α} (f : α → Prog ε σ β) {s t : σ} {a : α}
    (h : x s = (.ok a, t)) : (x >>= f) s = f a t := by
  simp only [bind, h]

theorem bind_of_error {x : Prog ε σ α} (f : α → Prog ε σ β) {s t : σ} {e : ε}
    (h : x s = (.error e, t)) : (x >>= f) s = (.error e, t) := by
  simp only [bind, h]

instance : LawfulMonad (Prog ε σ) :=
  LawfulMonad.mk' (Prog ε σ)
    (fun x => by
      funext s
      rcases hx : x s with ⟨_ | a, t⟩
      · exact bind_of_error (x := x) _ hx
      · exact bind_of_ok (x := x) _ hx)
    (fun _ _ => rfl)
    (fun x f g => by
      funext s
      rcases hx : x s with ⟨_ | a, t⟩
      · rw [bind_of_error _ (bind_of_error f hx), bind_of_error _ hx]
      · rw [bind_of_ok (fun a => f a >>= g) hx]
        simp only [bind, hx])

theorem bind_eq_ok {x : Prog ε σ α} {f : α → Prog ε σ β} {s t : σ} {b : β} :
    (x >>= f) s = (.ok b, t) ↔ ∃ a r, x s = (.ok a, r) ∧ f a r = (.ok b, t) := by
  rcases hx : x s with ⟨_ | a, r⟩
  · rw [bind_of_error f hx]
    simp
  · rw [bind_of_ok f hx]
    simp

theorem onFailure_of_ok {x : Prog ε σ α} (undo : σ → σ) {s t : σ} {a : α}
    (h : x s = (.ok a, t)) : onFailure x undo s = (.ok a, t) := by
  simp only [onFailure, h]

theorem onFailure_of_error {x : Prog ε σ α} (undo : σ → σ) {s t : σ} {e : ε}
    (h : x s = (.error e, t)) : onFailure x undo s = (.error e, undo t) := by
  simp only [onFailure, h]

theorem forEach_append (f : α → Prog ε σ Unit) (as bs : List α) :
    forEach f (as ++ bs) = (forEach f as >>= fun _ => forEach f bs) := by
  induction as with
  | nil => rfl
  | cons a as ih =>
    rw [List.cons_append, forEach, forEach, ih, bind_assoc]

/-- A program returns, and then this holds. -/
def Returns (x : Prog ε σ α) (Q : α → σ → Prop) (s : σ) : Prop :=
  match x s with
  | (.ok a, t) => Q a t
  | (.error _, _) => False

section Outcomes

variable {x : Prog ε σ α} {Q : α → σ → Prop} {s t : σ} {a : α}

instance Returns.decidable [∀ a t, Decidable (Q a t)] : Decidable (Returns x Q s) :=
  match h : x s with
  | (.ok a, t) => decidable_of_iff (Q a t) (by rw [Returns, h])
  | (.error _, _) => .isFalse (by rw [Returns, h]; exact id)

theorem returns_iff : Returns x Q s ↔ ∃ a t, x s = (.ok a, t) ∧ Q a t := by
  rw [Returns]
  rcases x s with ⟨e | a, t⟩
  · simp
  · constructor
    · exact fun h => ⟨a, t, rfl, h⟩
    · rintro ⟨b, r, heq, h⟩
      cases heq
      exact h

theorem returns_congr {Q' : α → σ → Prop} (h : ∀ a t, Q a t ↔ Q' a t) :
    Returns x Q s ↔ Returns x Q' s := by
  rw [returns_iff, returns_iff]
  exact exists_congr fun a => exists_congr fun t => and_congr_right fun _ => h a t

theorem returns_bind {f : α → Prog ε σ β} {R : β → σ → Prop} :
    Returns (x >>= f) R s ↔ Returns x (fun a => Returns (f a) R) s := by
  rcases hx : x s with ⟨e | a, t⟩
  · rw [Returns, bind_of_error f hx, Returns, hx]
  · rw [Returns, bind_of_ok f hx, ← Returns]
    rw [Returns.eq_def x, hx]

theorem returns_onFailure {undo : σ → σ} :
    Returns (onFailure x undo) Q s ↔ Returns x Q s := by
  rcases hx : x s with ⟨e | a, t⟩ <;> simp only [Returns, onFailure, hx]

end Outcomes

/-- What holds before, after a return and after a failure. -/
def Triple (P : σ → Prop) (x : Prog ε σ α) (Q : α → σ → Prop) (E : σ → Prop) : Prop :=
  ∀ s, P s → (∀ a t, x s = (.ok a, t) → Q a t) ∧ ∀ e t, x s = (.error e, t) → E t

namespace Triple

variable {P P' : σ → Prop} {Q Q' : α → σ → Prop} {R : β → σ → Prop} {E E' : σ → Prop}

theorem pure {a : α} (h : ∀ s, P s → Q a s) : Triple (ε := ε) P (pure a) Q E := by
  intro s hs
  refine ⟨fun b t hb => ?_, fun e t he => ?_⟩
  · obtain ⟨hab, rfl⟩ := Prod.mk.inj hb
    rw [← Except.ok.inj hab]
    exact h s hs
  · cases (Prod.mk.inj he).1

theorem fail {e : ε} (h : ∀ s, P s → E s) : Triple P (fail e : Prog ε σ α) Q E := by
  intro s hs
  refine ⟨fun a t ha => ?_, fun e' t he => ?_⟩
  · cases (Prod.mk.inj ha).1
  · obtain ⟨-, rfl⟩ := Prod.mk.inj he
    exact h s hs

theorem bind {x : Prog ε σ α} {f : α → Prog ε σ β} (hx : Triple P x Q E)
    (hf : ∀ a, Triple (Q a) (f a) R E) : Triple P (x >>= f) R E := by
  intro s hs
  obtain ⟨hok, herr⟩ := hx s hs
  rcases hxs : x s with ⟨_ | a, r⟩
  · refine ⟨fun b t hb => ?_, fun e t he => ?_⟩
    · rw [bind_of_error f hxs] at hb
      cases (Prod.mk.inj hb).1
    · rw [bind_of_error f hxs] at he
      obtain ⟨-, rfl⟩ := Prod.mk.inj he
      exact herr _ _ hxs
  · obtain ⟨hok', herr'⟩ := hf a r (hok a r hxs)
    refine ⟨fun b t hb => hok' b t ?_, fun e t he => herr' e t ?_⟩
    · rwa [bind_of_ok f hxs] at hb
    · rwa [bind_of_ok f hxs] at he

theorem conseq {x : Prog ε σ α} (hx : Triple P x Q E) (hP : ∀ s, P' s → P s)
    (hQ : ∀ a s, Q a s → Q' a s) (hE : ∀ s, E s → E' s) : Triple P' x Q' E' := by
  intro s hs
  obtain ⟨hok, herr⟩ := hx s (hP s hs)
  exact ⟨fun a t h => hQ a t (hok a t h), fun e t h => hE t (herr e t h)⟩

theorem and {x : Prog ε σ α} (hx : Triple P x Q E) (hx' : Triple P x Q' E') :
    Triple P x (fun a s => Q a s ∧ Q' a s) fun s => E s ∧ E' s := by
  intro s hs
  obtain ⟨hok, herr⟩ := hx s hs
  obtain ⟨hok', herr'⟩ := hx' s hs
  exact ⟨fun a t h => ⟨hok a t h, hok' a t h⟩, fun e t h => ⟨herr e t h, herr' e t h⟩⟩

/-- What holds after a return and after a failure alike. -/
theorem state {x : Prog ε σ α} {R : σ → Prop} (hx : Triple P x (fun _ => R) R) {s : σ} (hs : P s) :
    R (x s).2 := by
  obtain ⟨hok, herr⟩ := hx s hs
  rcases hxs : x s with ⟨_ | a, t⟩
  · exact herr _ t hxs
  · exact hok a t hxs

theorem modify {f : σ → σ} {R : Unit → σ → Prop} (h : ∀ s, P s → R () (f s)) :
    Triple (ε := ε) P (modify f) R E := by
  intro s hs
  refine ⟨fun a t ha => ?_, fun e t he => ?_⟩
  · obtain ⟨-, rfl⟩ := Prod.mk.inj ha
    exact h s hs
  · cases (Prod.mk.inj he).1

theorem get {R : σ → σ → Prop} (h : ∀ s, P s → R s s) : Triple (ε := ε) P get R E := by
  intro s hs
  refine ⟨fun a t ha => ?_, fun e t he => ?_⟩
  · obtain ⟨hab, rfl⟩ := Prod.mk.inj ha
    rw [← Except.ok.inj hab]
    exact h s hs
  · cases (Prod.mk.inj he).1

theorem attempt {x : Prog ε σ α} (hx : Triple P x Q E) :
    Triple P (attempt x) (fun r s => (∀ a, r = .ok a → Q a s) ∧ ∀ e, r = .error e → E s) E' := by
  intro s hs
  obtain ⟨hok, herr⟩ := hx s hs
  refine ⟨fun r t hr => ?_, fun e t he => ?_⟩
  · obtain ⟨hr', rfl⟩ := Prod.mk.inj hr
    have hres : (x s).1 = r := Except.ok.inj hr'
    exact ⟨fun a ha => hok a _ (Prod.ext (hres.trans ha) rfl),
      fun e he => herr e _ (Prod.ext (hres.trans he) rfl)⟩
  · cases (Prod.mk.inj he).1

theorem onFailure {x : Prog ε σ α} {undo : σ → σ} (hx : Triple P x Q E)
    (hundo : ∀ s, E s → E' (undo s)) : Triple P (onFailure x undo) Q E' := by
  intro s hs
  obtain ⟨hok, herr⟩ := hx s hs
  rcases hxs : x s with ⟨_ | a, r⟩
  · refine ⟨fun a t ha => ?_, fun e t he => ?_⟩
    · simp only [Prog.onFailure, hxs] at ha
      cases (Prod.mk.inj ha).1
    · simp only [Prog.onFailure, hxs] at he
      obtain ⟨-, rfl⟩ := Prod.mk.inj he
      exact hundo r (herr _ r hxs)
  · refine ⟨fun b t hb => ?_, fun e t he => ?_⟩
    · simp only [Prog.onFailure, hxs] at hb
      exact hok b t (hxs.trans hb)
    · simp only [Prog.onFailure, hxs] at he
      cases (Prod.mk.inj he).1

/-- The loop rule: the invariant is indexed by what is still to be done. -/
theorem forEach {f : α → Prog ε σ Unit} (I : List α → σ → Prop)
    (hf : ∀ a as, Triple (I (a :: as)) (f a) (fun _ => I as) E) (as : List α) :
    Triple (I as) (forEach f as) (fun _ => I []) E := by
  induction as with
  | nil => exact pure fun s hs => hs
  | cons a as ih => exact bind (hf a as) fun _ => ih

end Triple

/-- No run of a program lowers a measure of the state. -/
def Grows (μ : σ → Nat) (x : Prog ε σ α) : Prop := ∀ s, μ s ≤ μ (x s).2

namespace Grows

variable {μ : σ → Nat} {x : Prog ε σ α}

theorem pure (a : α) : Grows μ (pure a : Prog ε σ α) := fun _ => Nat.le_refl _

theorem fail (e : ε) : Grows μ (fail e : Prog ε σ α) := fun _ => Nat.le_refl _

theorem get : Grows μ (get : Prog ε σ σ) := fun _ => Nat.le_refl _

theorem modify {f : σ → σ} (h : ∀ s, μ s ≤ μ (f s)) : Grows (ε := ε) μ (modify f) := h

theorem bind {f : α → Prog ε σ β} (hx : Grows μ x) (hf : ∀ a, Grows μ (f a)) :
    Grows μ (x >>= f) := by
  intro s
  have hfirst := hx s
  rcases hxs : x s with ⟨e | a, t⟩
  · rw [hxs] at hfirst
    rw [bind_of_error f hxs]
    exact hfirst
  · rw [hxs] at hfirst
    rw [bind_of_ok f hxs]
    exact Nat.le_trans hfirst (hf a t)

theorem forEach {f : α → Prog ε σ Unit} (hf : ∀ a, Grows μ (f a)) (as : List α) :
    Grows μ (forEach f as) := by
  induction as with
  | nil => exact pure ()
  | cons a as ih => exact (hf a).bind fun _ => ih

theorem onFailure {undo : σ → σ} (hx : Grows μ x) (hundo : ∀ s, μ s ≤ μ (undo s)) :
    Grows μ (onFailure x undo) := by
  intro s
  have hfirst := hx s
  rcases hxs : x s with ⟨e | a, t⟩
  · simp only [Prog.onFailure, hxs]
    rw [hxs] at hfirst
    exact Nat.le_trans hfirst (hundo t)
  · simp only [Prog.onFailure, hxs]
    rw [hxs] at hfirst
    exact hfirst

theorem le {s t : σ} {r : Except ε α} (hx : Grows μ x) (h : x s = (r, t)) : μ s ≤ μ t := by
  have hle := hx s
  rw [h] at hle
  exact hle

end Grows

/-- A program lowers no measure of the state, and another does the same while the
measure is between two bounds. -/
structure Alike (μ : σ → Nat) (lo hi : Nat) (x y : Prog ε σ α) : Prop where
  grows : Grows μ x
  same : ∀ s, lo ≤ μ s → μ (x s).2 ≤ hi → y s = x s

namespace Alike

variable {μ : σ → Nat} {lo hi : Nat} {x y : Prog ε σ α}

theorem refl (hx : Grows μ x) : Alike μ lo hi x x := ⟨hx, fun _ _ _ => rfl⟩

/-- What follows may count on what the first part adds to the measure. -/
theorem bind_up {lo' : Nat} {f g : α → Prog ε σ β} (hx : Alike μ lo hi x y)
    (hup : ∀ s a t, lo ≤ μ s → x s = (.ok a, t) → lo' ≤ μ t)
    (hf : ∀ a, Alike μ lo' hi (f a) (g a)) : Alike μ lo hi (x >>= f) (y >>= g) := by
  refine ⟨hx.grows.bind fun a => (hf a).grows, fun s hlo hhi => ?_⟩
  rcases hxs : x s with ⟨e | a, t⟩
  · rw [bind_of_error f hxs] at hhi ⊢
    have hy : y s = (.error e, t) := by
      rw [hx.same s hlo (by rw [hxs]; exact hhi), hxs]
    exact bind_of_error g hy
  · rw [bind_of_ok f hxs] at hhi ⊢
    have hnext := (hf a).grows t
    have hy : y s = (.ok a, t) := by
      rw [hx.same s hlo (by rw [hxs]; exact Nat.le_trans hnext hhi), hxs]
    rw [bind_of_ok g hy]
    exact (hf a).same t (hup s a t hlo hxs) hhi

theorem bind {f g : α → Prog ε σ β} (hx : Alike μ lo hi x y) (hf : ∀ a, Alike μ lo hi (f a) (g a)) :
    Alike μ lo hi (x >>= f) (y >>= g) :=
  hx.bind_up (fun _ _ _ hlo hxs => Nat.le_trans hlo (hx.grows.le hxs)) hf

theorem forEach {f g : α → Prog ε σ Unit} (hf : ∀ a, Alike μ lo hi (f a) (g a)) (as : List α) :
    Alike μ lo hi (forEach f as) (forEach g as) := by
  induction as with
  | nil => exact refl (Grows.pure ())
  | cons a as ih => exact (hf a).bind fun _ => ih

theorem onFailure {undo : σ → σ} (hx : Alike μ lo hi x y) (hundo : ∀ s, μ (undo s) = μ s) :
    Alike μ lo hi (onFailure x undo) (onFailure y undo) := by
  refine ⟨hx.grows.onFailure fun s => Nat.le_of_eq (hundo s).symm, fun s hlo hhi => ?_⟩
  have hmeasure : μ (Prog.onFailure x undo s).2 = μ (x s).2 := by
    rcases hxs : x s with ⟨e | a, t⟩
    · simp only [Prog.onFailure, hxs, hundo]
    · simp only [Prog.onFailure, hxs]
  rw [Prog.onFailure, Prog.onFailure, hx.same s hlo (hmeasure ▸ hhi)]

theorem attempt (hx : Alike μ lo hi x y) : Alike μ lo hi (attempt x) (attempt y) := by
  refine ⟨hx.grows, fun s hlo hhi => ?_⟩
  rw [Prog.attempt, Prog.attempt, hx.same s hlo hhi]

end Alike

end Prog
