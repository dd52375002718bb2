import Mathlib.Data.List.Basic

/-! Runs of a transition function over a list of inputs, with the rule that
carries an invariant along and the rule for a property that persists. -/

namespace Run

variable {σ ι : Type*} {step : σ → ι → σ}

def run (step : σ → ι → σ) (s : σ) (inputs : List ι) : σ := inputs.foldl step s

@[simp] theorem run_nil (s : σ) : run step s [] = s := rfl

@[simp] theorem run_cons (s : σ) (i : ι) (is : List ι) :
    run step s (i :: is) = run step (step s i) is := rfl

theorem run_append (s : σ) (is js : List ι) :
    run step s (is ++ js) = run step (run step s is) js := by
  simp [run]

theorem run_inv (Inv : σ → Prop) (hstep : ∀ s i, Inv s → Inv (step s i)) {s : σ} (hs : Inv s)
    (is : List ι) : Inv (run step s is) := by
  induction is generalizing s with
  | nil => exact hs
  | cons i is ih => exact ih (hstep s i hs)

/-- A step that keeps a record beside the state, without acting on it. -/
def observed {γ : Type*} (step : σ → ι → σ) (observe : γ → σ → ι → γ) (s : σ × γ) (i : ι) : σ × γ :=
  (step s.1 i, observe s.2 s.1 i)

@[simp] theorem run_observed_fst {γ : Type*} (observe : γ → σ → ι → γ) (s : σ × γ) (is : List ι) :
    (run (observed step observe) s is).1 = run step s.1 is := by
  induction is generalizing s with
  | nil => rfl
  | cons i is ih => exact ih _

/-- A condition on each input and the state it meets. -/
def Along (step : σ → ι → σ) (P : σ → ι → Prop) : σ → List ι → Prop
  | _, [] => True
  | s, i :: is => P s i ∧ Along step P (step s i) is

instance Along.decidable {P : σ → ι → Prop} [∀ s i, Decidable (P s i)] :
    ∀ s is, Decidable (Along step P s is)
  | _, [] => .isTrue trivial
  | s, i :: is => @instDecidableAnd (P s i) _ _ (Along.decidable (step s i) is)

theorem Along.and {P : σ → ι → Prop} {Q : ι → Prop} {s : σ} {is : List ι} (h : Along step P s is)
    (hQ : ∀ i ∈ is, Q i) : Along step (fun s i => Q i ∧ P s i) s is := by
  induction is generalizing s with
  | nil => trivial
  | cons i is ih =>
    exact ⟨⟨hQ i List.mem_cons_self, h.1⟩, ih h.2 fun j hj => hQ j (List.mem_cons_of_mem i hj)⟩

theorem Along.of_forall {Q : ι → Prop} {s : σ} {is : List ι} (h : ∀ i ∈ is, Q i) :
    Along step (fun _ i => Q i) s is := by
  induction is generalizing s with
  | nil => trivial
  | cons i is ih => exact ⟨h i List.mem_cons_self, ih fun j hj => h j (List.mem_cons_of_mem i hj)⟩

theorem Along.imp {P Q : σ → ι → Prop} (h : ∀ s i, P s i → Q s i) {s : σ} {is : List ι}
    (hP : Along step P s is) : Along step Q s is := by
  induction is generalizing s with
  | nil => trivial
  | cons i is ih => exact ⟨h s i hP.1, ih hP.2⟩

theorem along_append {P : σ → ι → Prop} {s : σ} {is js : List ι} :
    Along step P s (is ++ js) ↔ Along step P s is ∧ Along step P (run step s is) js := by
  induction is generalizing s with
  | nil => simp only [List.nil_append, Along, run_nil, true_and]
  | cons i is ih => rw [List.cons_append, Along, Along, run_cons, ih, and_assoc]

theorem run_inv_along (Inv : σ → Prop) {P : σ → ι → Prop}
    (hstep : ∀ s i, Inv s → P s i → Inv (step s i)) {s : σ} (hs : Inv s) {is : List ι}
    (h : Along step P s is) : Inv (run step s is) := by
  induction is generalizing s with
  | nil => exact hs
  | cons i is ih => exact ih (hstep s i hs h.1) h.2

section Labels

variable {σ' ι' : Type*} {step' : σ' → ι' → σ'} {proj : σ → σ'} {label : σ → ι → List ι'}

/-- What a run is to another system, of which a step may be any number of steps. -/
def labels (step : σ → ι → σ) (label : σ → ι → List ι') : σ → List ι → List ι'
  | _, [] => []
  | s, i :: is => label s i ++ labels step label (step s i) is

theorem run_labels (h : ∀ s i, proj (step s i) = run step' (proj s) (label s i)) (s : σ) (is : List ι) :
    proj (run step s is) = run step' (proj s) (labels step label s is) := by
  induction is generalizing s with
  | nil => rfl
  | cons i is ih => rw [run_cons, ih, h, labels, run_append]

theorem along_labels {P : σ' → ι' → Prop} (h : ∀ s i, proj (step s i) = run step' (proj s) (label s i))
    {s : σ} {is : List ι} : Along step' P (proj s) (labels step label s is) ↔
      Along step (fun s i => Along step' P (proj s) (label s i)) s is := by
  induction is generalizing s with
  | nil => exact Iff.rfl
  | cons i is ih => rw [labels, along_append, ← h, ih, Along]

end Labels

/-- What holds at the end of a run that never meets a condition, if every other step
keeps it. -/
theorem run_until (Inv : σ → Prop) {E : σ → ι → Prop}
    (hstep : ∀ s i, Inv s → E s i ∨ Inv (step s i)) {s : σ} (hs : Inv s) (is : List ι) :
    Inv (run step s is) ∨ ∃ before i after, is = before ++ i :: after ∧ E (run step s before) i := by
  induction is generalizing s with
  | nil => exact .inl hs
  | cons i is ih =>
    rcases hstep s i hs with hE | hnext
    · exact .inr ⟨[], i, is, rfl, hE⟩
    · rcases ih hnext with hend | ⟨before, j, after, rfl, hE⟩
      · exact .inl hend
      · exact .inr ⟨i :: before, j, after, rfl, hE⟩

/-- Where one step keeps a property exactly when its input meets a condition, the
property holds all along a run exactly when every input meets it. -/
theorem prefixes_iff_along (Inv P : σ → Prop) {C : σ → ι → Prop}
    (hinv : ∀ s i, Inv s → Inv (step s i))
    (hstep : ∀ s i, Inv s → P s → (P (step s i) ↔ C s i)) {s : σ} (hs : Inv s) (hP : P s)
    {is : List ι} :
    (∀ done, done <+: is → P (run step s done)) ↔ Along step C s is := by
  induction is generalizing s with
  | nil =>
    refine ⟨fun _ => True.intro, fun _ done hdone => ?_⟩
    rw [List.prefix_nil.mp hdone]
    exact hP
  | cons i is ih =>
    have hnext := hinv s i hs
    constructor
    · intro h
      have hfirst : P (step s i) := h [i] ⟨is, rfl⟩
      refine ⟨(hstep s i hs hP).mp hfirst, (ih hnext hfirst).mp fun done hdone => ?_⟩
      obtain ⟨rest, rfl⟩ := hdone
      exact h (i :: done) ⟨rest, rfl⟩
    · rintro ⟨hi, hrest⟩ done hdone
      have hfirst := (hstep s i hs hP).mpr hi
      rcases List.prefix_cons_iff.mp hdone with rfl | ⟨rest, rfl, hrest'⟩
      · exact hP
      · exact (ih hnext hfirst).mpr hrest rest hrest'

/-- What one input establishes and every later one keeps, under an invariant. -/
theorem run_since (Inv P : σ → Prop) (hinv : ∀ s i, Inv s → Inv (step s i))
    (hkeep : ∀ s i, Inv s → P s → P (step s i)) {s : σ} (hs : Inv s) (before after : List ι)
    {i : ι} (hi : P (step (run step s before) i)) : P (run step s (before ++ i :: after)) := by
  rw [run_append, run_cons]
  have h : Inv (step (run step s before) i) ∧ P (step (run step s before) i) :=
    ⟨hinv _ _ (run_inv Inv hinv hs before), hi⟩
  exact (run_inv (fun s => Inv s ∧ P s)
    (fun s i hsi => ⟨hinv s i hsi.1, hkeep s i hsi.1 hsi.2⟩) h after).2

end Run
