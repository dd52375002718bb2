import Mathlib.Algebra.BigOperators.Group.Finset.Piecewise
import Mathlib.Algebra.Order.BigOperators.Group.Finset
import Mathlib.Tactic.Common

/-! Balances of finitely many accounts: crediting and debiting one account,
moving an amount between two, and what these do to the sum of all balances. -/

namespace Ledger

variable {A : Type*} [DecidableEq A]

def credit (f : A → ℕ) (a : A) (v : ℕ) : A → ℕ := Function.update f a (f a + v)

def debit (f : A → ℕ) (a : A) (v : ℕ) : A → ℕ := Function.update f a (f a - v)

/-- The two writes of a transfer, in the order in which they are made. -/
def move (f : A → ℕ) (a b : A) (v : ℕ) : A → ℕ := credit (debit f a v) b v

@[simp] theorem credit_self (f : A → ℕ) (a : A) (v : ℕ) : credit f a v a = f a + v := by
  simp [credit]

theorem credit_of_ne (f : A → ℕ) {a b : A} (v : ℕ) (h : b ≠ a) : credit f a v b = f b := by
  simp [credit, h]

@[simp] theorem credit_zero (f : A → ℕ) (a : A) : credit f a 0 = f := by simp [credit]

@[simp] theorem debit_self (f : A → ℕ) (a : A) (v : ℕ) : debit f a v a = f a - v := by
  simp [debit]

theorem debit_of_ne (f : A → ℕ) {a b : A} (v : ℕ) (h : b ≠ a) : debit f a v b = f b := by
  simp [debit, h]

theorem debit_le (f : A → ℕ) (a : A) (v : ℕ) (b : A) : debit f a v b ≤ f b := by
  by_cases h : b = a
  · subst h; simp
  · rw [debit_of_ne f v h]

@[simp] theorem debit_zero (f : A → ℕ) (a : A) : debit f a 0 = f := by simp [debit]

theorem le_credit (f : A → ℕ) (a : A) (v : ℕ) (b : A) : f b ≤ credit f a v b := by
  by_cases h : b = a
  · subst h; simp
  · rw [credit_of_ne f v h]

@[simp] theorem move_zero (f : A → ℕ) (a b : A) : move f a b 0 = f := by simp [move]

theorem move_self {f : A → ℕ} {a : A} {v : ℕ} (h : v ≤ f a) : move f a a v = f := by
  funext b
  by_cases hb : b = a
  · subst hb; simp [move]; omega
  · simp [move, credit_of_ne _ _ hb, debit_of_ne _ _ hb]

theorem move_src {f : A → ℕ} {a b : A} (v : ℕ) (h : a ≠ b) : move f a b v a = f a - v := by
  simp [move, credit_of_ne _ _ h]

theorem move_dst {f : A → ℕ} {a b : A} (v : ℕ) (h : b ≠ a) : move f a b v b = f b + v := by
  simp [move, debit_of_ne _ _ h]

theorem move_of_ne {f : A → ℕ} {a b c : A} (v : ℕ) (ha : c ≠ a) (hb : c ≠ b) :
    move f a b v c = f c := by
  simp [move, credit_of_ne _ _ hb, debit_of_ne _ _ ha]

theorem le_move {f : A → ℕ} {a b c : A} {v : ℕ} (h : c ≠ a) : f c ≤ move f a b v c := by
  by_cases hb : c = b
  · subst hb; rw [move_dst v h]; omega
  · rw [move_of_ne v h hb]

theorem le_move_src (f : A → ℕ) (a b : A) (v : ℕ) : f a - v ≤ move f a b v a := by
  by_cases h : a = b
  · subst h; simp [move]
  · rw [move_src v h]

theorem move_src_le {f : A → ℕ} {a : A} {v : ℕ} (b : A) (h : v ≤ f a) : move f a b v a ≤ f a := by
  by_cases hab : a = b
  · subst hab
    rw [move_self h]
  · rw [move_src v hab]
    exact Nat.sub_le _ _

variable [Fintype A]

theorem sum_update (f : A → ℕ) (a : A) (v : ℕ) :
    ∑ x, Function.update f a v x + f a = ∑ x, f x + v := by
  rw [Finset.sum_update_of_mem (Finset.mem_univ a),
    ← Finset.add_sum_erase Finset.univ f (Finset.mem_univ a), Finset.sdiff_singleton_eq_erase]
  omega

@[simp] theorem sum_credit (f : A → ℕ) (a : A) (v : ℕ) :
    ∑ x, credit f a v x = ∑ x, f x + v := by
  have h := sum_update f a (f a + v)
  simp only [credit]
  omega

theorem sum_debit {f : A → ℕ} {a : A} {v : ℕ} (h : v ≤ f a) :
    ∑ x, debit f a v x + v = ∑ x, f x := by
  have hs := sum_update f a (f a - v)
  simp only [debit]
  omega

theorem sum_move {f : A → ℕ} {a b : A} {v : ℕ} (h : v ≤ f a) :
    ∑ x, move f a b v x = ∑ x, f x := by
  rw [move, sum_credit, sum_debit h]

omit [DecidableEq A] in
theorem le_sum (f : A → ℕ) (a : A) : f a ≤ ∑ x, f x :=
  Finset.single_le_sum (fun _ _ => Nat.zero_le _) (Finset.mem_univ a)

theorem add_le_sum (f : A → ℕ) {a b : A} (h : a ≠ b) : f a + f b ≤ ∑ x, f x := by
  rw [← Finset.sum_pair (f := f) h]
  exact Finset.sum_le_sum_of_subset (Finset.subset_univ _)

end Ledger
