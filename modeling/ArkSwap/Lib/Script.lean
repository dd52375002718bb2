import ArkSwap.Lib.Prog

/-! The calls of a program, written down beforehand: which of them fail, and where a
failure does no harm. A program obeys its script when it fails at the first
call that fails and makes all calls otherwise. -/

namespace Prog

/-- A call by its number: whether it fails, and whether that does no harm. -/
structure CallSite where
  fails : Nat → Bool
  spares : Nat → Bool

/-- The first call that fails does no harm; if none does, something holds in the end. -/
def Spared (final : Prop) : List CallSite → Nat → Prop
  | [], _ => final
  | c :: cs, n => if c.fails n = true then c.spares n = true else Spared final cs (n + 1)

instance Spared.decidable {final : Prop} [Decidable final] :
    ∀ cs n, Decidable (Spared final cs n)
  | [], _ => inferInstanceAs (Decidable final)
  | c :: cs, n =>
      haveI := @Spared.decidable final _ cs (n + 1)
      inferInstanceAs (Decidable (if c.fails n = true then c.spares n = true else _))

theorem spared_append {final : Prop} {cs ds : List CallSite} {n : Nat} :
    Spared final (cs ++ ds) n ↔ Spared (Spared final ds (n + cs.length)) cs n := by
  induction cs generalizing n with
  | nil => exact Iff.rfl
  | cons c cs ih =>
    rw [List.cons_append, Spared, Spared, List.length_cons]
    split
    · exact Iff.rfl
    · rw [ih, Nat.add_assoc, Nat.add_comm 1]

variable {ε σ α β : Type} {μ : σ → Nat} {script : List CallSite} {s t : σ} {E E' : σ → Prop}

/-- From a state whose measure is the number of its next call, a program obeys a
script: what holds when it returns, and when it fails where that does no harm. -/
def Obeys (μ : σ → Nat) (script : List CallSite) (x : Prog ε σ α) (s : σ) (Q : α → σ → Prop)
    (E : σ → Prop) : Prop :=
  ∀ final : Prop, Spared final script (μ s) →
    (∀ a t, x s = (.ok a, t) → μ t = μ s + script.length ∧ Q a t ∧ final) ∧
      ∀ e t, x s = (.error e, t) → E t

namespace Obeys

variable {x : Prog ε σ α} {Q Q' : α → σ → Prop}

theorem pure {a : α} (h : Q a s) : Obeys (ε := ε) μ [] (pure a) s Q E := by
  intro final hfinal
  refine ⟨fun b t hb => ?_, fun e t he => (by cases he)⟩
  obtain ⟨hab, rfl⟩ := Prod.mk.inj hb
  rw [← Except.ok.inj hab]
  exact ⟨rfl, h, hfinal⟩

theorem of_eq {y : Prog ε σ α} (hxy : x s = y t) (hμ : μ t = μ s) (hy : Obeys μ script y t Q E) :
    Obeys μ script x s Q E := by
  intro final hspared
  rw [hxy, ← hμ]
  exact hy final (hμ ▸ hspared)

theorem modify {f : σ → σ} {R : Unit → σ → Prop} (hμ : μ (f s) = μ s) (h : R () (f s)) :
    Obeys (ε := ε) μ [] (modify f) s R E := by
  intro final hfinal
  refine ⟨fun b t hb => ?_, fun e t he => (by cases he)⟩
  obtain ⟨-, rfl⟩ := Prod.mk.inj hb
  exact ⟨hμ, h, hfinal⟩

theorem get {R : σ → σ → Prop} (h : R s s) : Obeys (ε := ε) μ [] get s R E := by
  intro final hfinal
  refine ⟨fun b t hb => ?_, fun e t he => (by cases he)⟩
  obtain ⟨hab, rfl⟩ := Prod.mk.inj hb
  rw [← Except.ok.inj hab]
  exact ⟨rfl, h, hfinal⟩

/-- A single call, from what it does when it fails and when it does not. -/
theorem call {c : CallSite} (hfail : c.fails (μ s) = true → ∃ e t, x s = (.error e, t) ∧
      (c.spares (μ s) = true → E t))
    (hok : c.fails (μ s) = false → ∃ a t, x s = (.ok a, t) ∧ μ t = μ s + 1 ∧ Q a t) :
    Obeys μ [c] x s Q E := by
  intro final hspared
  rw [Spared, Spared] at hspared
  rcases hc : c.fails (μ s) with _ | _
  · rw [hc, if_neg Bool.false_ne_true] at hspared
    obtain ⟨a, t, hx, hμ, hQ⟩ := hok hc
    refine ⟨fun b r hb => ?_, fun e r he => ?_⟩
    · cases hx.symm.trans hb
      exact ⟨hμ, hQ, hspared⟩
    · cases hx.symm.trans he
  · rw [hc, if_pos rfl] at hspared
    obtain ⟨e, t, hx, hE⟩ := hfail hc
    refine ⟨fun b r hb => ?_, fun e r he => ?_⟩
    · cases hx.symm.trans hb
    · cases hx.symm.trans he
      exact hE hspared

theorem bind {u v : List CallSite} {f : α → Prog ε σ β} {R : β → σ → Prop}
    (hx : Obeys μ u x s Q E)
    (hf : ∀ a t, Q a t → μ t = μ s + u.length → Obeys μ v (f a) t R E) :
    Obeys μ (u ++ v) (x >>= f) s R E := by
  intro final hspared
  obtain ⟨hok, herr⟩ := hx _ (spared_append.mp hspared)
  rcases hxs : x s with ⟨e | a, r⟩
  · rw [bind_of_error f hxs]
    refine ⟨fun b t hb => (by cases hb), fun e' t he => ?_⟩
    cases he
    exact herr e r hxs
  · obtain ⟨hμ, hQ, hrest⟩ := hok a r hxs
    rw [bind_of_ok f hxs]
    rw [← hμ] at hrest
    obtain ⟨hok', herr'⟩ := hf a r hQ hμ final hrest
    refine ⟨fun b t hb => ?_, herr'⟩
    obtain ⟨hμ', hR, hfinal⟩ := hok' b t hb
    exact ⟨by rw [hμ', hμ, List.length_append, Nat.add_assoc], hR, hfinal⟩

theorem conseq (hx : Obeys μ script x s Q E) (hQ : ∀ a t, Q a t → Q' a t)
    (hE : ∀ t, E t → E' t) : Obeys μ script x s Q' E' := by
  intro final hspared
  obtain ⟨hok, herr⟩ := hx final hspared
  exact ⟨fun a t h => ⟨(hok a t h).1, hQ a t (hok a t h).2.1, (hok a t h).2.2⟩,
    fun e t h => hE t (herr e t h)⟩

/-- What a program leaves, from what its continuation leaves. -/
theorem run {cs : List CallSite} {f : α → Prog ε σ β} {final : Prop} (hx : Obeys μ cs x s Q E)
    (hspared : Spared final cs (μ s))
    (hf : ∀ a t, Q a t → μ t = μ s + cs.length → final → E (f a t).2) : E ((x >>= f) s).2 := by
  obtain ⟨hok, herr⟩ := hx final hspared
  rcases hxs : x s with ⟨e | a, r⟩
  · rw [bind_of_error f hxs]
    exact herr e r hxs
  · rw [bind_of_ok f hxs]
    obtain ⟨hμ, hQ, hfinal⟩ := hok a r hxs
    exact hf a r hQ hμ hfinal

theorem onFailure {F : σ → Prop} {undo : σ → σ} (hx : Obeys μ script x s Q E)
    (hundo : ∀ t, E t → F (undo t)) : Obeys μ script (onFailure x undo) s Q F := by
  intro final hspared
  obtain ⟨hok, herr⟩ := hx final hspared
  rcases hxs : x s with ⟨e | a, r⟩
  · rw [onFailure_of_error undo hxs]
    refine ⟨fun b t hb => (by cases hb), fun e' t he => ?_⟩
    cases he
    exact hundo r (herr e r hxs)
  · rw [onFailure_of_ok undo hxs]
    refine ⟨fun b t hb => ?_, fun e' t he => (by cases he)⟩
    cases hb
    exact hok a r hxs

theorem never {c : CallSite} {n : Nat} {a : α} (hc : ∀ k, c.fails k = false) (hx : x s = (.ok a, t))
    (hμ : μ t = μ s + n) (hQ : Q a t) : Obeys μ (List.replicate n c) x s Q E := by
  intro final hspared
  have hfinal : ∀ n k, Spared final (List.replicate n c) k → final := by
    intro n
    induction n with
    | zero => exact fun _ h => h
    | succ n ih =>
      intro k h
      rw [List.replicate_succ, Spared, hc k, if_neg Bool.false_ne_true] at h
      exact ih (k + 1) h
  refine ⟨fun b r hb => ?_, fun e r he => ?_⟩
  · cases hx.symm.trans hb
    exact ⟨by rw [List.length_replicate, hμ], hQ, hfinal n _ hspared⟩
  · cases hx.symm.trans he

end Obeys

end Prog
