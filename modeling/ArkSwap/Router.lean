import ArkSwap.Library

/-! The router: every external function of `ArkSwapRouter02` that moves
assets, over the pairs, the token ledgers, wrapped KASH and native KASH. -/

namespace ArkSwap

open Checked

namespace World

/-- Wrapped KASH lets an account spend its own balance without an allowance. -/
def spendAllowance (env : Env) (w : World) (token spender src : Address) (value : Nat) :
    Except String ArkSwapERC20 :=
  if token = env.WETH ∧ src = spender then .ok (w.token token)
  else (w.token token).spendAllowance spender src value

/-- A token's `transferFrom`, called by `spender`. -/
def transferFrom (env : Env) (w : World) (token spender src dst : Address) (value : Nat) :
    Except String World := do
  let t ← w.spendAllowance env token spender src value
  (w.setToken token t).transfer env token src dst value

def moveNative (w : World) (src dst : Address) (value : Nat) : World :=
  { w with native := Ledger.move w.native src dst value }

end World

namespace WKASH

def deposit (env : Env) (w : World) (src : Address) (value : Nat) : Except String World := do
  require (value ≤ w.native src) "insufficient balance"
  let t ← (w.token env.WETH).mint src value
  return (w.moveNative src env.WETH value).setToken env.WETH t

/-- The native KASH reaches the router, whose `receive` asks only who sent it. -/
def withdraw (env : Env) (w : World) (value : Nat) : Except String World := do
  let t ← orFail ((w.token env.WETH).burn env.router value) "WKASH: INSUFFICIENT_BALANCE"
  require (value ≤ w.native env.WETH) "insufficient balance"
  return (w.setToken env.WETH t).moveNative env.WETH env.router value

end WKASH

namespace TransferHelper

def safeTransfer (env : Env) (w : World) (token dst : Address) (value : Nat) :
    Except String World :=
  orFail (w.transfer env token env.router dst value) "TransferHelper: TRANSFER_FAILED"

def safeTransferFrom (env : Env) (w : World) (token src dst : Address) (value : Nat) :
    Except String World :=
  orFail (w.transferFrom env token env.router src dst value)
    "TransferHelper: TRANSFER_FROM_FAILED"

/-- Wrapped KASH turns what it receives into a deposit of the sender; the
router accepts nothing but unwrapped KASH. -/
def safeTransferETH (env : Env) (w : World) (dst : Address) (value : Nat) :
    Except String World :=
  orFail (do
    require (value ≤ w.native env.router) "insufficient balance"
    if dst = env.WETH then WKASH.deposit env w env.router value
    else if dst = env.router then .error "invalid opcode"
    else env.receive dst (w.moveNative env.router dst value))
    "TransferHelper: ETH_TRANSFER_FAILED"

end TransferHelper

namespace ArkSwapRouter02

open ArkSwapLibrary TransferHelper

def ensure (w : World) (deadline : Nat) : Except String Unit :=
  require (deadline ≥ w.timestamp) "ArkSwapRouter: EXPIRED"

/-- Reading beyond the end of an array stops the call. -/
def pathAt (path : List Address) (i : Nat) : Except String Address :=
  match path[i]? with
  | some token => .ok token
  | none => .error "invalid opcode"

def lastToken (path : List Address) : Except String Address :=
  match path.getLast? with
  | some token => .ok token
  | none => .error "invalid opcode"

def firstAmount (amounts : List Nat) : Except String Nat :=
  match amounts.head? with
  | some amount => .ok amount
  | none => .error "invalid opcode"

def lastAmount (amounts : List Nat) : Except String Nat :=
  match amounts.getLast? with
  | some amount => .ok amount
  | none => .error "invalid opcode"

/-- The caller's KASH arrives before the function runs. -/
def payable {α : Type} (env : Env) (w : World) (sender : Address) (value : Nat)
    (body : World → Except String α) : Except String α := do
  require (value ≤ w.native sender) "insufficient balance"
  body (w.moveNative sender env.router value)

/-- The pair is created if it does not exist yet. -/
def withPair (env : Env) (w : World) (tokenA tokenB : Address) : Except String World :=
  if w.factory.getPair tokenA tokenB = 0 then do
    let (_, w) ← ArkSwapFactory.createPair env w tokenA tokenB
    return w
  else return w

def addLiquidityAmounts (env : Env) (w : World) (tokenA tokenB : Address)
    (amountADesired amountBDesired amountAMin amountBMin : Nat) :
    Except String ((Nat × Nat) × World) := do
  let w ← withPair env w tokenA tokenB
  let (reserveA, reserveB) ← getReserves env w tokenA tokenB
  if reserveA = 0 ∧ reserveB = 0 then
    return ((amountADesired, amountBDesired), w)
  else do
    let amountBOptimal ← quote amountADesired reserveA reserveB
    if amountBOptimal ≤ amountBDesired then do
      require (amountBOptimal ≥ amountBMin) "ArkSwapRouter: INSUFFICIENT_B_AMOUNT"
      return ((amountADesired, amountBOptimal), w)
    else do
      let amountAOptimal ← quote amountBDesired reserveB reserveA
      require (amountAOptimal ≤ amountADesired) "invalid opcode"
      require (amountAOptimal ≥ amountAMin) "ArkSwapRouter: INSUFFICIENT_A_AMOUNT"
      return ((amountAOptimal, amountBDesired), w)

def addLiquidity (env : Env) (w : World) (sender tokenA tokenB : Address)
    (amountADesired amountBDesired amountAMin amountBMin : Nat) (dst : Address)
    (deadline : Nat) : Except String ((Nat × Nat × Nat) × World) := do
  ensure w deadline
  let ((amountA, amountB), w) ← addLiquidityAmounts env w tokenA tokenB amountADesired
    amountBDesired amountAMin amountBMin
  let pair ← pairFor env tokenA tokenB
  let w ← safeTransferFrom env w tokenA sender pair amountA
  let w ← safeTransferFrom env w tokenB sender pair amountB
  let (liquidity, w) ← ArkSwapPair.mint w pair env.router dst
  return ((amountA, amountB, liquidity), w)

/-- Dust that was sent along goes back to the caller. -/
def refund (env : Env) (w : World) (sender : Address) (value amount : Nat) :
    Except String World :=
  if value > amount then safeTransferETH env w sender (value - amount) else .ok w

def addLiquidityETH (env : Env) (w : World) (sender : Address) (value : Nat) (token : Address)
    (amountTokenDesired amountTokenMin amountETHMin : Nat) (dst : Address) (deadline : Nat) :
    Except String ((Nat × Nat × Nat) × World) :=
  payable env w sender value fun w => do
    ensure w deadline
    let ((amountToken, amountETH), w) ← addLiquidityAmounts env w token env.WETH
      amountTokenDesired value amountTokenMin amountETHMin
    let pair ← pairFor env token env.WETH
    let w ← safeTransferFrom env w token sender pair amountToken
    let w ← WKASH.deposit env w env.router amountETH
    let w ← w.transfer env env.WETH env.router pair amountETH
    let (liquidity, w) ← ArkSwapPair.mint w pair env.router dst
    let w ← refund env w sender value amountETH
    return ((amountToken, amountETH, liquidity), w)

def removeLiquidity (env : Env) (w : World) (sender tokenA tokenB : Address)
    (liquidity amountAMin amountBMin : Nat) (dst : Address) (deadline : Nat) :
    Except String ((Nat × Nat) × World) := do
  ensure w deadline
  let pair ← pairFor env tokenA tokenB
  let _ ← w.storage pair
  let lp ← (w.token pair).transferFrom env.router sender pair liquidity
  let ((amount0, amount1), w) ← ArkSwapPair.burn env (w.setToken pair lp) pair env.router dst
  let (token0, _) ← sortTokens tokenA tokenB
  let (amountA, amountB) := if tokenA = token0 then (amount0, amount1) else (amount1, amount0)
  require (amountA ≥ amountAMin) "ArkSwapRouter: INSUFFICIENT_A_AMOUNT"
  require (amountB ≥ amountBMin) "ArkSwapRouter: INSUFFICIENT_B_AMOUNT"
  return ((amountA, amountB), w)

def removeLiquidityETH (env : Env) (w : World) (sender token : Address)
    (liquidity amountTokenMin amountETHMin : Nat) (dst : Address) (deadline : Nat) :
    Except String ((Nat × Nat) × World) := do
  ensure w deadline
  let ((amountToken, amountETH), w) ← removeLiquidity env w sender token env.WETH liquidity
    amountTokenMin amountETHMin env.router deadline
  let w ← safeTransfer env w token dst amountToken
  let w ← WKASH.withdraw env w amountETH
  let w ← safeTransferETH env w dst amountETH
  return ((amountToken, amountETH), w)

/-- The signature that lets the router spend the caller's shares. -/
structure Permit where
  approveMax : Bool
  v : Nat
  r : Nat
  s : Nat

def permitShares (env : Env) (w : World) (sender tokenA tokenB : Address)
    (liquidity deadline : Nat) (sig : Permit) : Except String World := do
  let pair ← pairFor env tokenA tokenB
  let value := if sig.approveMax then Uint.size - 1 else liquidity
  let _ ← w.storage pair
  let lp ← (w.token pair).permit env pair w.timestamp sender env.router value deadline
    sig.v sig.r sig.s
  return w.setToken pair lp

def removeLiquidityWithPermit (env : Env) (w : World) (sender tokenA tokenB : Address)
    (liquidity amountAMin amountBMin : Nat) (dst : Address) (deadline : Nat) (sig : Permit) :
    Except String ((Nat × Nat) × World) := do
  let w ← permitShares env w sender tokenA tokenB liquidity deadline sig
  removeLiquidity env w sender tokenA tokenB liquidity amountAMin amountBMin dst deadline

def removeLiquidityETHWithPermit (env : Env) (w : World) (sender token : Address)
    (liquidity amountTokenMin amountETHMin : Nat) (dst : Address) (deadline : Nat)
    (sig : Permit) : Except String ((Nat × Nat) × World) := do
  let w ← permitShares env w sender token env.WETH liquidity deadline sig
  removeLiquidityETH env w sender token liquidity amountTokenMin amountETHMin dst deadline

def removeLiquidityETHSupportingFeeOnTransferTokens (env : Env) (w : World)
    (sender token : Address) (liquidity amountTokenMin amountETHMin : Nat) (dst : Address)
    (deadline : Nat) : Except String (Nat × World) := do
  ensure w deadline
  let ((_, amountETH), w) ← removeLiquidity env w sender token env.WETH liquidity
    amountTokenMin amountETHMin env.router deadline
  let w ← safeTransfer env w token dst (w.balanceOf token env.router)
  let w ← WKASH.withdraw env w amountETH
  let w ← safeTransferETH env w dst amountETH
  return (amountETH, w)

def removeLiquidityETHWithPermitSupportingFeeOnTransferTokens (env : Env) (w : World)
    (sender token : Address) (liquidity amountTokenMin amountETHMin : Nat) (dst : Address)
    (deadline : Nat) (sig : Permit) : Except String (Nat × World) := do
  let w ← permitShares env w sender token env.WETH liquidity deadline sig
  removeLiquidityETHSupportingFeeOnTransferTokens env w sender token liquidity amountTokenMin
    amountETHMin dst deadline

/-- Where a hop pays to: the pair of the next hop, or the recipient. -/
def hopTo (env : Env) (dst output : Address) : List Address → Except String Address
  | next :: _ => pairFor env output next
  | [] => .ok dst

def swapAmounts (env : Env) (dst : Address) :
    World → List Nat → List Address → Except String World
  | w, _ :: amountOut :: amounts, input :: output :: path => do
      let (token0, _) ← sortTokens input output
      let (amount0Out, amount1Out) := if input = token0 then (0, amountOut) else (amountOut, 0)
      let hop ← hopTo env dst output path
      let pair ← pairFor env input output
      let (_, w) ← ArkSwapPair.swap env w pair env.router amount0Out amount1Out hop none
      swapAmounts env dst w (amountOut :: amounts) (output :: path)
  | _, _, _ :: _ :: _ => .error "invalid opcode"
  | w, _, _ => .ok w

def payFirst (env : Env) (w : World) (sender : Address) (path : List Address) (amount : Nat) :
    Except String World := do
  let pair ← pairFor env (← pathAt path 0) (← pathAt path 1)
  safeTransferFrom env w (← pathAt path 0) sender pair amount

def wrapFirst (env : Env) (w : World) (path : List Address) (amount : Nat) :
    Except String World := do
  let w ← WKASH.deposit env w env.router amount
  let pair ← pairFor env (← pathAt path 0) (← pathAt path 1)
  w.transfer env env.WETH env.router pair amount

def unwrapTo (env : Env) (w : World) (dst : Address) (amount : Nat) : Except String World := do
  let w ← WKASH.withdraw env w amount
  safeTransferETH env w dst amount

def swapExactTokensForTokens (env : Env) (w : World) (sender : Address)
    (amountIn amountOutMin : Nat) (path : List Address) (dst : Address) (deadline : Nat) :
    Except String (List Nat × World) := do
  ensure w deadline
  let amounts ← getAmountsOut env w amountIn path
  require ((← lastAmount amounts) ≥ amountOutMin) "ArkSwapRouter: INSUFFICIENT_OUTPUT_AMOUNT"
  let w ← payFirst env w sender path (← firstAmount amounts)
  let w ← swapAmounts env dst w amounts path
  return (amounts, w)

def swapTokensForExactTokens (env : Env) (w : World) (sender : Address)
    (amountOut amountInMax : Nat) (path : List Address) (dst : Address) (deadline : Nat) :
    Except String (List Nat × World) := do
  ensure w deadline
  let amounts ← getAmountsIn env w amountOut path
  require ((← firstAmount amounts) ≤ amountInMax) "ArkSwapRouter: EXCESSIVE_INPUT_AMOUNT"
  let w ← payFirst env w sender path (← firstAmount amounts)
  let w ← swapAmounts env dst w amounts path
  return (amounts, w)

def swapExactETHForTokens (env : Env) (w : World) (sender : Address) (value amountOutMin : Nat)
    (path : List Address) (dst : Address) (deadline : Nat) :
    Except String (List Nat × World) :=
  payable env w sender value fun w => do
    ensure w deadline
    require ((← pathAt path 0) = env.WETH) "ArkSwapRouter: INVALID_PATH"
    let amounts ← getAmountsOut env w value path
    require ((← lastAmount amounts) ≥ amountOutMin) "ArkSwapRouter: INSUFFICIENT_OUTPUT_AMOUNT"
    let w ← wrapFirst env w path (← firstAmount amounts)
    let w ← swapAmounts env dst w amounts path
    return (amounts, w)

def swapTokensForExactETH (env : Env) (w : World) (sender : Address)
    (amountOut amountInMax : Nat) (path : List Address) (dst : Address) (deadline : Nat) :
    Except String (List Nat × World) := do
  ensure w deadline
  require ((← lastToken path) = env.WETH) "ArkSwapRouter: INVALID_PATH"
  let amounts ← getAmountsIn env w amountOut path
  require ((← firstAmount amounts) ≤ amountInMax) "ArkSwapRouter: EXCESSIVE_INPUT_AMOUNT"
  let w ← payFirst env w sender path (← firstAmount amounts)
  let w ← swapAmounts env env.router w amounts path
  let w ← unwrapTo env w dst (← lastAmount amounts)
  return (amounts, w)

def swapExactTokensForETH (env : Env) (w : World) (sender : Address)
    (amountIn amountOutMin : Nat) (path : List Address) (dst : Address) (deadline : Nat) :
    Except String (List Nat × World) := do
  ensure w deadline
  require ((← lastToken path) = env.WETH) "ArkSwapRouter: INVALID_PATH"
  let amounts ← getAmountsOut env w amountIn path
  require ((← lastAmount amounts) ≥ amountOutMin) "ArkSwapRouter: INSUFFICIENT_OUTPUT_AMOUNT"
  let w ← payFirst env w sender path (← firstAmount amounts)
  let w ← swapAmounts env env.router w amounts path
  let w ← unwrapTo env w dst (← lastAmount amounts)
  return (amounts, w)

def swapETHForExactTokens (env : Env) (w : World) (sender : Address) (value amountOut : Nat)
    (path : List Address) (dst : Address) (deadline : Nat) :
    Except String (List Nat × World) :=
  payable env w sender value fun w => do
    ensure w deadline
    require ((← pathAt path 0) = env.WETH) "ArkSwapRouter: INVALID_PATH"
    let amounts ← getAmountsIn env w amountOut path
    let amount ← firstAmount amounts
    require (amount ≤ value) "ArkSwapRouter: EXCESSIVE_INPUT_AMOUNT"
    let w ← wrapFirst env w path amount
    let w ← swapAmounts env dst w amounts path
    let w ← refund env w sender value amount
    return (amounts, w)

/-- Each hop trades what has arrived at its pair beyond the reserve. -/
def swapSupportingFeeOnTransferTokens (env : Env) (dst : Address) :
    World → List Address → Except String World
  | w, input :: output :: path => do
      let (token0, _) ← sortTokens input output
      let pair ← pairFor env input output
      let p ← w.storage pair
      let (reserveInput, reserveOutput) :=
        if input = token0 then (p.reserve0, p.reserve1) else (p.reserve1, p.reserve0)
      let amountInput ← SafeMath.sub (w.balanceOf input pair) reserveInput
      let amountOutput ← getAmountOut amountInput reserveInput reserveOutput
      let (amount0Out, amount1Out) :=
        if input = token0 then (0, amountOutput) else (amountOutput, 0)
      let hop ← hopTo env dst output path
      let (_, w) ← ArkSwapPair.swap env w pair env.router amount0Out amount1Out hop none
      swapSupportingFeeOnTransferTokens env dst w (output :: path)
  | w, _ => .ok w

def swapMeasured (env : Env) (w : World) (path : List Address) (dst : Address)
    (amountOutMin : Nat) : Except String World := do
  let output ← lastToken path
  let balanceBefore := w.balanceOf output dst
  let w ← swapSupportingFeeOnTransferTokens env dst w path
  let received ← SafeMath.sub (w.balanceOf output dst) balanceBefore
  require (received ≥ amountOutMin) "ArkSwapRouter: INSUFFICIENT_OUTPUT_AMOUNT"
  return w

def swapExactTokensForTokensSupportingFeeOnTransferTokens (env : Env) (w : World)
    (sender : Address) (amountIn amountOutMin : Nat) (path : List Address) (dst : Address)
    (deadline : Nat) : Except String (Unit × World) := do
  ensure w deadline
  let w ← payFirst env w sender path amountIn
  let w ← swapMeasured env w path dst amountOutMin
  return ((), w)

def swapExactETHForTokensSupportingFeeOnTransferTokens (env : Env) (w : World)
    (sender : Address) (value amountOutMin : Nat) (path : List Address) (dst : Address)
    (deadline : Nat) : Except String (Unit × World) :=
  payable env w sender value fun w => do
    ensure w deadline
    require ((← pathAt path 0) = env.WETH) "ArkSwapRouter: INVALID_PATH"
    let w ← wrapFirst env w path value
    let w ← swapMeasured env w path dst amountOutMin
    return ((), w)

def swapExactTokensForETHSupportingFeeOnTransferTokens (env : Env) (w : World)
    (sender : Address) (amountIn amountOutMin : Nat) (path : List Address) (dst : Address)
    (deadline : Nat) : Except String (Unit × World) := do
  ensure w deadline
  require ((← lastToken path) = env.WETH) "ArkSwapRouter: INVALID_PATH"
  let w ← payFirst env w sender path amountIn
  let w ← swapSupportingFeeOnTransferTokens env env.router w path
  let amountOut := w.balanceOf env.WETH env.router
  require (amountOut ≥ amountOutMin) "ArkSwapRouter: INSUFFICIENT_OUTPUT_AMOUNT"
  let w ← unwrapTo env w dst amountOut
  return ((), w)

end ArkSwapRouter02

end ArkSwap
