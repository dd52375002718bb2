import ArkSwap.Pair

/-! The factory: deterministic pair addresses, deployment of a pair, and the
privileged fee settings. -/

namespace ArkSwap

open Checked

/-- The `k` lowest bytes of a number, the highest one first. -/
def bytesBE (k n : Nat) : List UInt8 :=
  (List.range k).map fun i => UInt8.ofNat (n / 256 ^ (k - 1 - i))

def encodeAddress (a : Address) : List UInt8 := bytesBE 20 a.val

/-- The address at which a contract is created with the given salt. -/
def create2 (env : Env) (salt codeHash : Nat) : Address :=
  Fin.ofNat (2 ^ 160) (env.keccak256
    (0xff :: encodeAddress env.factory ++ bytesBE 32 salt ++ bytesBE 32 codeHash))

def pairSalt (env : Env) (token0 token1 : Address) : Nat :=
  env.keccak256 (encodeAddress token0 ++ encodeAddress token1)

namespace World

/-- A new contract starts with empty storage; its constructor records the factory. -/
def construct (w : World) (pair : Address) : World :=
  (w.setToken pair .initial).setPair pair (.initial 0 0)

/-- A pair as `createPair` leaves it: constructed, then initialised. -/
def deploy (w : World) (pair token0 token1 : Address) : World :=
  (w.setToken pair .initial).setPair pair (.initial token0 token1)

end World

namespace ArkSwapPair

def initializePair (env : Env) (w : World) (self sender token0 token1 : Address) :
    Except String World := do
  let p ← w.storage self
  require (sender = env.factory) "ArkSwap: FORBIDDEN"
  return w.setPair self { p with token0 := token0, token1 := token1 }

theorem initializePair_error {env : Env} {w : World} {self sender : Address} (h : sender ≠ env.factory)
    (token0 token1 : Address) : ∃ e, initializePair env w self sender token0 token1 = .error e := by
  rw [initializePair, World.storage]
  rcases w.pair self with _ | p
  · exact ⟨_, rfl⟩
  · exact ⟨_, by rw [require_error_of_not h]; rfl⟩

end ArkSwapPair

namespace ArkSwapFactory

/-- Creation fails where there is code already. -/
def createPair (env : Env) (w : World) (tokenA tokenB : Address) :
    Except String (Address × World) := do
  require (tokenA ≠ tokenB) "ArkSwap: IDENTICAL_ADDRESSES"
  let (token0, token1) := if tokenA < tokenB then (tokenA, tokenB) else (tokenB, tokenA)
  require (token0 ≠ 0) "ArkSwap: ZERO_ADDRESS"
  require (w.factory.getPair token0 token1 = 0) "ArkSwap: PAIR_EXISTS"
  let pair := create2 env (pairSalt env token0 token1) env.pairCodeHash
  require (w.pair pair = none ∧ pair ≠ 0 ∧ pair ≠ env.factory ∧ pair ≠ env.router ∧
    pair ≠ env.WETH) "call to non-contract account"
  let f := w.factory
  let getPair := Function.update f.getPair token0 (Function.update (f.getPair token0) token1 pair)
  let getPair := Function.update getPair token1 (Function.update (getPair token1) token0 pair)
  let f := { f with getPair := getPair, allPairs := f.allPairs ++ [pair] }
  let w := { w.deploy pair token0 token1 with factory := f }
  return (pair, w.emit (.pairCreated token0 token1 pair f.allPairs.length))

def setFeeTo (f : ArkSwapFactory) (sender feeTo : Address) : Except String ArkSwapFactory := do
  require (sender = f.feeToSetter) "ArkSwap: FORBIDDEN"
  return { f with feeTo := feeTo }

def setFeeToSetter (f : ArkSwapFactory) (sender feeToSetter : Address) :
    Except String ArkSwapFactory := do
  require (sender = f.feeToSetter) "ArkSwap: FORBIDDEN"
  return { f with feeToSetter := feeToSetter }

end ArkSwapFactory

end ArkSwap
