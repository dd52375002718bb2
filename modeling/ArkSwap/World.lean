import ArkSwap.Lib.Ledger
import ArkSwap.Arithmetic
import Mathlib.Data.Fin.Basic
import Mathlib.Data.Fintype.Basic

/-! The chain state the contracts act on: token ledgers, pair storage, the
factory and native balances, together with the fixed code around them. -/

namespace ArkSwap

open Checked

abbrev Address := Fin (2 ^ 160)

instance Address.neZero : NeZero (2 ^ 160) := ⟨by norm_num⟩

instance Address.transOrd : Std.TransOrd Address := inferInstance

section Sorted

variable {a b : Address}

theorem sorted_eq (a b : Address) :
    (if a < b then (a, b) else (b, a)) = (min a b, max a b) := by
  rcases lt_or_ge a b with hlt | hge
  · rw [if_pos hlt, min_eq_left hlt.le, max_eq_right hlt.le]
  · rw [if_neg (not_lt.mpr hge), min_eq_right hge, max_eq_left hge]

/-- What holds of two tokens either way round holds of them in order. -/
theorem sorted_pair {P : Address → Address → Prop} (hab : P a b) (hba : P b a) :
    P (min a b) (max a b) := by
  rcases lt_or_ge a b with hlt | hge
  · rwa [min_eq_left hlt.le, max_eq_right hlt.le]
  · rwa [min_eq_right hge, max_eq_left hge]

theorem sorted_mul (f : Address → Nat) (a b : Address) : f (min a b) * f (max a b) = f a * f b :=
  sorted_pair (P := fun s t => f s * f t = f a * f b) rfl (Nat.mul_comm _ _)

theorem of_sorted {P : Address → Prop} (h₀ : P (min a b)) (h₁ : P (max a b)) : P a ∧ P b := by
  rcases lt_or_ge a b with hlt | hge
  · rw [min_eq_left hlt.le] at h₀
    rw [max_eq_right hlt.le] at h₁
    exact ⟨h₀, h₁⟩
  · rw [min_eq_right hge] at h₀
    rw [max_eq_left hge] at h₁
    exact ⟨h₁, h₀⟩

end Sorted

/-- Storage of an ERC-20 contract, in particular of a pair's LP token. -/
structure ArkSwapERC20 where
  totalSupply : Nat
  balanceOf : Address → Nat
  allowance : Address → Address → Nat
  nonces : Address → Nat

structure ArkSwapPair where
  token0 : Address
  token1 : Address
  reserve0 : Nat
  reserve1 : Nat
  blockTimestampLast : Nat
  price0CumulativeLast : Nat
  price1CumulativeLast : Nat
  kLast : Nat
  unlocked : Nat
  deriving DecidableEq

structure ArkSwapFactory where
  feeTo : Address
  feeToSetter : Address
  getPair : Address → Address → Address
  allPairs : List Address

/-- Storage of a contract that has just been deployed. -/
def ArkSwapERC20.initial : ArkSwapERC20 :=
  { totalSupply := 0, balanceOf := fun _ => 0, allowance := fun _ _ => 0, nonces := fun _ => 0 }

def ArkSwapPair.initial (token0 token1 : Address) : ArkSwapPair :=
  { token0 := token0, token1 := token1, reserve0 := 0, reserve1 := 0, blockTimestampLast := 0,
    price0CumulativeLast := 0, price1CumulativeLast := 0, kLast := 0, unlocked := 1 }

inductive Event where
  | pairCreated (token0 token1 pair : Address) (length : Nat)
  | mint (pair sender : Address) (amount0 amount1 : Nat)
  | burn (pair sender : Address) (amount0 amount1 : Nat) (dst : Address)
  | swap (pair sender : Address) (amount0In amount1In amount0Out amount1Out : Nat) (dst : Address)
  | sync (pair : Address) (reserve0 reserve1 : Nat)
  deriving DecidableEq

structure World where
  timestamp : Nat
  token : Address → ArkSwapERC20
  pair : Address → Option ArkSwapPair
  factory : ArkSwapFactory
  native : Address → Nat
  logs : List Event

/-- What does not change during a run: hashing, signature recovery, the
deployed addresses, the part of a transfer each token burns, and what an
account does when native KASH reaches it. -/
structure Env where
  keccak256 : List UInt8 → Nat
  pairCodeHash : Nat
  permitDigest : Address → Address → Address → Nat → Nat → Nat → Nat
  ecrecover : Nat → Nat → Nat → Nat → Address
  factory : Address
  router : Address
  WETH : Address
  burned : Address → Address → Address → Nat → Nat
  burned_le : ∀ token src dst value, burned token src dst value ≤ value
  receive : Address → World → Except String World

namespace ArkSwapERC20

def mint (t : ArkSwapERC20) (dst : Address) (value : Nat) : Except String ArkSwapERC20 := do
  let totalSupply ← SafeMath.add t.totalSupply value
  let balance ← SafeMath.add (t.balanceOf dst) value
  return { t with
    totalSupply := totalSupply
    balanceOf := Function.update t.balanceOf dst balance }

def burn (t : ArkSwapERC20) (src : Address) (value : Nat) : Except String ArkSwapERC20 := do
  let balance ← SafeMath.sub (t.balanceOf src) value
  let totalSupply ← SafeMath.sub t.totalSupply value
  return { t with
    balanceOf := Function.update t.balanceOf src balance
    totalSupply := totalSupply }

def approve (t : ArkSwapERC20) (owner spender : Address) (value : Nat) : ArkSwapERC20 :=
  { t with
    allowance := Function.update t.allowance owner
      (Function.update (t.allowance owner) spender value) }

def transfer (t : ArkSwapERC20) (src dst : Address) (value : Nat) :
    Except String ArkSwapERC20 := do
  let paid ← SafeMath.sub (t.balanceOf src) value
  let balanceOf := Function.update t.balanceOf src paid
  let received ← SafeMath.add (balanceOf dst) value
  return { t with balanceOf := Function.update balanceOf dst received }

/-- An allowance of `uint(-1)` is not used up. -/
def spendAllowance (t : ArkSwapERC20) (spender src : Address) (value : Nat) :
    Except String ArkSwapERC20 :=
  if t.allowance src spender ≠ Uint.size - 1 then do
    let rest ← SafeMath.sub (t.allowance src spender) value
    return t.approve src spender rest
  else return t

def transferFrom (t : ArkSwapERC20) (spender src dst : Address) (value : Nat) :
    Except String ArkSwapERC20 := do
  let t ← t.spendAllowance spender src value
  t.transfer src dst value

def permit (env : Env) (t : ArkSwapERC20) (self : Address) (timestamp : Nat)
    (owner spender : Address) (value deadline v r s : Nat) : Except String ArkSwapERC20 := do
  require (deadline ≥ timestamp) "ArkSwap: EXPIRED"
  let digest := env.permitDigest self owner spender value (t.nonces owner) deadline
  let t := { t with nonces := Function.update t.nonces owner (Uint.add (t.nonces owner) 1) }
  let recoveredAddress := env.ecrecover digest v r s
  require (recoveredAddress ≠ 0 ∧ recoveredAddress = owner) "ArkSwap: INVALID_SIGNATURE"
  return t.approve owner spender value

/-- Balances add up to the supply, and the supply is a word. -/
def Conserved (t : ArkSwapERC20) : Prop :=
  ∑ a, t.balanceOf a = t.totalSupply ∧ t.totalSupply < Uint.size

theorem initial_conserved : initial.Conserved := by
  refine ⟨?_, by norm_num [initial, Uint.size]⟩
  simp only [initial, Finset.sum_const_zero]

/-- Two checked operations in a row, the second of which may use the result of the first. -/
theorem checked_twice {α β γ : Type} {p : Prop} {q : α → Prop} {x : α} {y : α → β}
    {f : α → β → γ} {t : γ} : (∃ a, (p ∧ a = x) ∧ ∃ b, (q a ∧ b = y a) ∧ f a b = t) ↔
      p ∧ q x ∧ t = f x (y x) := by
  constructor
  · rintro ⟨_, ⟨h, rfl⟩, _, ⟨h', rfl⟩, rfl⟩
    exact ⟨h, h', rfl⟩
  · rintro ⟨h, h', rfl⟩
    exact ⟨_, ⟨h, rfl⟩, _, ⟨h', rfl⟩, rfl⟩

theorem mint_eq_ok {t t' : ArkSwapERC20} {dst : Address} {value : Nat} :
    t.mint dst value = .ok t' ↔
      t.totalSupply + value < Uint.size ∧ t.balanceOf dst + value < Uint.size ∧
      t' = { t with
        totalSupply := t.totalSupply + value
        balanceOf := Ledger.credit t.balanceOf dst value } := by
  simp only [mint, Ledger.credit, bind_eq_ok, SafeMath.add_eq_ok, pure_eq_ok, Except.ok.injEq]
  exact checked_twice

theorem burn_eq_ok {t t' : ArkSwapERC20} {src : Address} {value : Nat} :
    t.burn src value = .ok t' ↔
      value ≤ t.balanceOf src ∧ value ≤ t.totalSupply ∧
      t' = { t with
        balanceOf := Ledger.debit t.balanceOf src value
        totalSupply := t.totalSupply - value } := by
  simp only [burn, Ledger.debit, bind_eq_ok, SafeMath.sub_eq_ok, pure_eq_ok, Except.ok.injEq]
  exact checked_twice

theorem transfer_eq_ok {t t' : ArkSwapERC20} {src dst : Address} {value : Nat} :
    t.transfer src dst value = .ok t' ↔
      value ≤ t.balanceOf src ∧ Ledger.debit t.balanceOf src value dst + value < Uint.size ∧
      t' = { t with balanceOf := Ledger.move t.balanceOf src dst value } := by
  simp only [transfer, Ledger.debit, Ledger.move, Ledger.credit, bind_eq_ok, SafeMath.sub_eq_ok, SafeMath.add_eq_ok, pure_eq_ok, Except.ok.injEq]
  exact checked_twice

theorem spendAllowance_ok {t t' : ArkSwapERC20} {spender src : Address} {value : Nat}
    (h : t.spendAllowance spender src value = .ok t') :
    t'.totalSupply = t.totalSupply ∧ t'.balanceOf = t.balanceOf ∧ t'.nonces = t.nonces ∧
      ((t.allowance src spender = Uint.size - 1 ∧ t' = t) ∨
        (value ≤ t.allowance src spender ∧
          t' = t.approve src spender (t.allowance src spender - value))) := by
  simp only [spendAllowance, ite_eq_ok, bind_eq_ok, SafeMath.sub_eq_ok, pure_eq_ok,
    Except.ok.injEq] at h
  rcases h with ⟨-, rest, ⟨hle, rfl⟩, rfl⟩ | ⟨hmax, rfl⟩
  · exact ⟨rfl, rfl, rfl, .inr ⟨hle, rfl⟩⟩
  · exact ⟨rfl, rfl, rfl, .inl ⟨not_not.mp hmax, rfl⟩⟩

@[simp] theorem approve_balanceOf (t : ArkSwapERC20) (o s : Address) (v : Nat) :
    (t.approve o s v).balanceOf = t.balanceOf := rfl

@[simp] theorem approve_totalSupply (t : ArkSwapERC20) (o s : Address) (v : Nat) :
    (t.approve o s v).totalSupply = t.totalSupply := rfl

theorem approve_raised {t : ArkSwapERC20} {o s owner spender : Address} {v : Nat}
    (h : t.allowance o s < (t.approve owner spender v).allowance o s) :
    o = owner ∧ s = spender ∧ t.allowance owner spender < v := by
  by_cases ho : o = owner
  · subst ho
    by_cases hs : s = spender
    · subst hs
      exact ⟨rfl, rfl, by simpa [approve] using h⟩
    · simp [approve, hs] at h
  · simp [approve, ho] at h

theorem permit_ok {env : Env} {t t' : ArkSwapERC20} {self owner spender : Address}
    {timestamp value deadline v r s : Nat}
    (h : t.permit env self timestamp owner spender value deadline v r s = .ok t') :
    timestamp ≤ deadline ∧ owner ≠ 0 ∧
      env.ecrecover (env.permitDigest self owner spender value (t.nonces owner) deadline) v r s
        = owner ∧
      t' = ({ t with
        nonces := Function.update t.nonces owner (Uint.add (t.nonces owner) 1) }).approve
          owner spender value := by
  simp only [permit, bind_eq_ok, require_eq_ok, pure_eq_ok, Except.ok.injEq] at h
  obtain ⟨-, hd, -, ⟨hne, he⟩, rfl⟩ := h
  exact ⟨hd, he ▸ hne, he, rfl⟩

end ArkSwapERC20

end ArkSwap
