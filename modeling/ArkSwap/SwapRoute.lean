import ArkSwap.PairAddress

/-! The quotes the swap form shows: walks over the hops of a path with the
reserves it has read. -/

namespace ArkSwap

open Checked

namespace ArkSwapRouter

def getAmountsOut (env : Env) (w : World) (amountIn : Nat) (path : List Address) :
    Except String (List Nat) :=
  ArkSwapLibrary.getAmountsOut env w amountIn path

def getAmountsIn (env : Env) (w : World) (amountOut : Nat) (path : List Address) :
    Except String (List Nat) :=
  ArkSwapLibrary.getAmountsIn env w amountOut path

end ArkSwapRouter

namespace UseSwapRoute

structure Hop where
  pair : Text
  tokenIn : Text
  tokenOut : Text

structure PoolReserves where
  token0 : Text
  reserve0 : Int
  reserve1 : Int

structure Quote where
  amountIn : Int
  amountOut : Int
  impactBps : Int
  deriving DecidableEq

abbrev Pools := Text → Option PoolReserves

/-- Reading a field of a pool that is missing throws. -/
def poolOf (pools : Pools) (hop : Hop) : Except String PoolReserves :=
  match pools (Sdk.toLowerCase hop.pair) with
  | some pool => .ok pool
  | none => .error "TypeError"

/-- The reserves of a pool as the pair `(reserveIn, reserveOut)`. -/
def oriented (pool : PoolReserves) (tokenIn : Text) : Int × Int :=
  let zeroIsIn := Sdk.toLowerCase pool.token0 = Sdk.toLowerCase tokenIn
  (if zeroIsIn then pool.reserve0 else pool.reserve1,
    if zeroIsIn then pool.reserve1 else pool.reserve0)

/-- A step of the forward walk on the amount and the mid price as a fraction. -/
def hopIn (pools : Pools) : Int × Int × Int → Hop → Except String (Int × Int × Int)
  | (amount, idealNum, idealDen), hop => do
      let (reserveIn, reserveOut) := oriented (← poolOf pools hop) hop.tokenIn
      let amount ← Sdk.getAmountOut amount reserveIn reserveOut
      return (amount, idealNum * reserveOut, idealDen * reserveIn)

def hopOut (pools : Pools) : Int × Int × Int → Hop → Except String (Int × Int × Int)
  | (amount, idealNum, idealDen), hop => do
      let (reserveIn, reserveOut) := oriented (← poolOf pools hop) hop.tokenIn
      let amount ← Sdk.getAmountIn amount reserveIn reserveOut
      return (amount, idealNum * reserveIn, idealDen * reserveOut)

def quoteExactIn (hops : List Hop) (pools : Pools) (amountIn : Int) :
    Except String (Option Quote) := do
  let (amount, idealNum, idealDen) ← hops.foldlM (hopIn pools) (amountIn, amountIn, 1)
  if amount ≤ 0 then
    return none
  let ideal := if idealDen > 0 then idealNum.tdiv idealDen else 0
  let impactBps := if ideal > 0 ∧ ideal > amount then ((ideal - amount) * 10000).tdiv ideal else 0
  return some ⟨amountIn, amount, impactBps⟩

def quoteExactOut (hops : List Hop) (pools : Pools) (amountOut : Int) :
    Except String (Option Quote) := do
  let (amount, idealNum, idealDen) ← hops.reverse.foldlM (hopOut pools) (amountOut, amountOut, 1)
  if amount ≤ 0 then
    return none
  let idealIn := if idealDen > 0 then idealNum.tdiv idealDen else 0
  let impactBps :=
    if amount > idealIn ∧ amount > 0 then ((amount - idealIn) * 10000).tdiv amount else 0
  return some ⟨amount, amountOut, impactBps⟩

end UseSwapRoute

end ArkSwap
