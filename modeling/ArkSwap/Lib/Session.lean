import ArkSwap.Lib.Prog

/-! A session with a transactional server. Inside a transaction nothing is
permanent before the commit; outside of one every statement is. A call can
be refused, or its connection lost before or after the server acted on it. -/

inductive Transaction (D : Type) where
  | idle
  | active (view : D)
  | aborted

structure Session (D : Type) where
  committed : D
  transaction : Transaction D

/-- What is sent; `apply` is a statement that changes what is stored or fails. -/
inductive Command (D : Type) where
  | begin
  | commit
  | rollback
  | apply (f : D → Option D)

inductive Outcome where
  | answered
  | refused
  | lost
  | unanswered
  deriving DecidableEq

namespace Session

variable {D ε : Type} {d d' d'' : D} {s t : Session D} {f : D → Option D} {o : Outcome} {e : ε}

/-- A `begin` inside a transaction and a `commit` outside of one do nothing. -/
def exec (s : Session D) (c : Command D) : Option (Session D) :=
  match c, s.transaction with
  | .begin, .idle => some { s with transaction := .active s.committed }
  | .begin, .active _ => some s
  | .begin, .aborted => none
  | .commit, .active view => some ⟨view, .idle⟩
  | .commit, _ => some { s with transaction := .idle }
  | .rollback, _ => some { s with transaction := .idle }
  | .apply f, .idle => (f s.committed).map fun d => { s with committed := d }
  | .apply f, .active view => (f view).map fun d => { s with transaction := .active d }
  | .apply _, .aborted => none

/-- An error spoils the open transaction. -/
def spoil (s : Session D) : Session D :=
  match s.transaction with
  | .active _ => { s with transaction := .aborted }
  | _ => s

/-- The server drops the open transaction with the connection. -/
def disconnect (s : Session D) : Session D := { s with transaction := .idle }

def send (c : Command D) (o : Outcome) (e : ε) : Prog ε (Session D) Unit := fun s =>
  match o with
  | .answered =>
      match s.exec c with
      | some t => (.ok (), t)
      | none => (.error e, s.spoil)
  | .refused => (.error e, s.spoil)
  | .lost => (.error e, s.disconnect)
  | .unanswered => (.error e, ((s.exec c).getD s.spoil).disconnect)

@[simp] theorem exec_begin_idle : exec ⟨d, .idle⟩ .begin = some ⟨d, .active d⟩ := rfl

@[simp] theorem exec_begin_active (d d' : D) : exec ⟨d, .active d'⟩ .begin = some ⟨d, .active d'⟩ := rfl

@[simp] theorem exec_commit_idle : exec ⟨d, .idle⟩ .commit = some ⟨d, .idle⟩ := rfl

@[simp] theorem exec_commit_active (d d' : D) : exec ⟨d, .active d'⟩ .commit = some ⟨d', .idle⟩ := rfl

theorem exec_apply_idle (h : f d = some d') : exec ⟨d, .idle⟩ (.apply f) = some ⟨d', .idle⟩ := by
  simp [exec, h]

theorem exec_apply_active (h : f d' = some d'') :
    exec ⟨d, .active d'⟩ (.apply f) = some ⟨d, .active d''⟩ := by
  simp [exec, h]

@[simp] theorem spoil_committed (s : Session D) : s.spoil.committed = s.committed := by
  unfold spoil
  split <;> rfl

/-- A rollback leaves what is committed alone, and so does its failure. -/
@[simp] theorem rollback_committed (s : Session D) :
    ((s.exec .rollback).getD s).committed = s.committed := rfl

/-- A call that can be made is made and answered, or made, or not made. -/
theorem send_cases {c : Command D} (h : s.exec c = some t) :
    o = .answered ∧ send c o e s = (.ok (), t) ∨
      ∃ t', send c o e s = (.error e, t') ∧ (o = .unanswered ∧ t'.committed = t.committed ∨
        (o = .refused ∨ o = .lost) ∧ t'.committed = s.committed) := by
  cases o with
  | answered => exact Or.inl ⟨rfl, by rw [send, h]⟩
  | refused => exact Or.inr ⟨_, rfl, Or.inr ⟨Or.inl rfl, spoil_committed s⟩⟩
  | lost => exact Or.inr ⟨_, rfl, Or.inr ⟨Or.inr rfl, rfl⟩⟩
  | unanswered => exact Or.inr ⟨_, rfl, Or.inl ⟨rfl, by rw [h]; rfl⟩⟩

/-- Where a call commits nothing, neither does its failure. -/
theorem send_keeps {c : Command D} (h : s.exec c = some t) (hkeep : t.committed = s.committed) :
    o = .answered ∧ send c o e s = (.ok (), t) ∨
      o ≠ .answered ∧ ∃ t', send c o e s = (.error e, t') ∧ t'.committed = s.committed := by
  rcases send_cases (o := o) (e := e) h with hok | ⟨t', hsend, ⟨rfl, ht⟩ | ⟨rfl | rfl, ht⟩⟩
  · exact Or.inl hok
  · exact Or.inr ⟨by decide, t', hsend, ht.trans hkeep⟩
  · exact Or.inr ⟨by decide, t', hsend, ht⟩
  · exact Or.inr ⟨by decide, t', hsend, ht⟩

end Session
