import ArkSwap.Factory

/-! The periphery library: sorted tokens, pair addresses, reserves in path
order, and the quotes along a path. -/

namespace ArkSwap

open Checked

namespace ArkSwapLibrary

def PAIR_INIT_CODE_HASH : Nat :=
  0x30820c342fc28c16c80e536d138c0c5290a90de3583c2a126a9e19b519432e74

def sortTokens (tokenA tokenB : Address) : Except String (Address × Address) := do
  require (tokenA ≠ tokenB) "ArkSwapLibrary: IDENTICAL_ADDRESSES"
  let (token0, token1) := if tokenA < tokenB then (tokenA, tokenB) else (tokenB, tokenA)
  require (token0 ≠ 0) "ArkSwapLibrary: ZERO_ADDRESS"
  return (token0, token1)

def pairFor (env : Env) (tokenA tokenB : Address) : Except String Address := do
  let (token0, token1) ← sortTokens tokenA tokenB
  return create2 env (pairSalt env token0 token1) PAIR_INIT_CODE_HASH

def getReserves (env : Env) (w : World) (tokenA tokenB : Address) :
    Except String (Nat × Nat) := do
  let (token0, _) ← sortTokens tokenA tokenB
  let p ← w.storage (← pairFor env tokenA tokenB)
  return if tokenA = token0 then (p.reserve0, p.reserve1) else (p.reserve1, p.reserve0)

def quote (amountA reserveA reserveB : Nat) : Except String Nat := do
  require (amountA > 0) "ArkSwapLibrary: INSUFFICIENT_AMOUNT"
  require (reserveA > 0 ∧ reserveB > 0) "ArkSwapLibrary: INSUFFICIENT_LIQUIDITY"
  Uint.div (← SafeMath.mul amountA reserveB) reserveA

def getAmountOut (amountIn reserveIn reserveOut : Nat) : Except String Nat := do
  require (amountIn > 0) "ArkSwapLibrary: INSUFFICIENT_INPUT_AMOUNT"
  require (reserveIn > 0 ∧ reserveOut > 0) "ArkSwapLibrary: INSUFFICIENT_LIQUIDITY"
  let amountInWithFee ← SafeMath.mul amountIn 997
  let numerator ← SafeMath.mul amountInWithFee reserveOut
  let denominator ← SafeMath.add (← SafeMath.mul reserveIn 1000) amountInWithFee
  Uint.div numerator denominator

def getAmountIn (amountOut reserveIn reserveOut : Nat) : Except String Nat := do
  require (amountOut > 0) "ArkSwapLibrary: INSUFFICIENT_OUTPUT_AMOUNT"
  require (reserveIn > 0 ∧ reserveOut > 0) "ArkSwapLibrary: INSUFFICIENT_LIQUIDITY"
  let numerator ← SafeMath.mul (← SafeMath.mul reserveIn amountOut) 1000
  let denominator ← SafeMath.mul (← SafeMath.sub reserveOut amountOut) 997
  SafeMath.add (← Uint.div numerator denominator) 1

/-- The amounts from one token of the path on. -/
def amountsOut (env : Env) (w : World) (amountIn : Nat) : List Address → Except String (List Nat)
  | input :: output :: path => do
      let (reserveIn, reserveOut) ← getReserves env w input output
      let amountOut ← getAmountOut amountIn reserveIn reserveOut
      let amounts ← amountsOut env w amountOut (output :: path)
      return amountIn :: amounts
  | _ => .ok [amountIn]

def getAmountsOut (env : Env) (w : World) (amountIn : Nat) (path : List Address) :
    Except String (List Nat) := do
  require (path.length ≥ 2) "ArkSwapLibrary: INVALID_PATH"
  amountsOut env w amountIn path

/-- The amount needed at one token of the path, and those after it. The last
hop is computed first. -/
def amountsIn (env : Env) (w : World) (amountOut : Nat) :
    List Address → Except String (Nat × List Nat)
  | input :: output :: path => do
      let (amount, amounts) ← amountsIn env w amountOut (output :: path)
      let (reserveIn, reserveOut) ← getReserves env w input output
      let amountIn ← getAmountIn amount reserveIn reserveOut
      return (amountIn, amount :: amounts)
  | _ => .ok (amountOut, [])

def getAmountsIn (env : Env) (w : World) (amountOut : Nat) (path : List Address) :
    Except String (List Nat) := do
  require (path.length ≥ 2) "ArkSwapLibrary: INVALID_PATH"
  let (amount, amounts) ← amountsIn env w amountOut path
  return amount :: amounts

end ArkSwapLibrary

end ArkSwap
