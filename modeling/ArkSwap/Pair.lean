import ArkSwap.World

/-! The pair contract: reserves, liquidity shares and swaps, as calls that
either fail and change nothing or return with a new world. -/

namespace ArkSwap

open Checked

namespace World

def balanceOf (w : World) (token account : Address) : Nat := (w.token token).balanceOf account

def setToken (w : World) (token : Address) (t : ArkSwapERC20) : World :=
  { w with token := Function.update w.token token t }

def setPair (w : World) (self : Address) (p : ArkSwapPair) : World :=
  { w with pair := Function.update w.pair self (some p) }

def emit (w : World) (e : Event) : World := { w with logs := w.logs ++ [e] }

def storage (w : World) (self : Address) : Except String ArkSwapPair :=
  match w.pair self with
  | some p => .ok p
  | none => .error "call to non-contract account"

/-- A token's `transfer`, called by `src`. A token that burns part of its
transfers takes that part from the sender first. -/
def transfer (env : Env) (w : World) (token src dst : Address) (value : Nat) :
    Except String World := do
  let t ← (w.token token).burn src (env.burned token src dst value)
  let t ← t.transfer src dst (value - env.burned token src dst value)
  return w.setToken token t

end World

namespace ArkSwapPair

def MINIMUM_LIQUIDITY : Nat := 10 ^ 3

def safeTransfer (env : Env) (w : World) (token self dst : Address) (value : Nat) :
    Except String World :=
  orFail (w.transfer env token self dst value) "ArkSwap: TRANSFER_FAILED"

def lock {α : Type} (w : World) (self : Address) (body : World → Except String (α × World)) :
    Except String (α × World) := do
  let p ← w.storage self
  require (p.unlocked = 1) "ArkSwap: LOCKED"
  let (a, w) ← body (w.setPair self { p with unlocked := 0 })
  let p ← w.storage self
  return (a, w.setPair self { p with unlocked := 1 })

/-- Writes the balances into the reserves and, once per block, extends the
price accumulators. -/
def update (p : ArkSwapPair) (timestamp balance0 balance1 _reserve0 _reserve1 : Nat) :
    Except String ArkSwapPair := do
  require (balance0 ≤ Uint.max112 ∧ balance1 ≤ Uint.max112) "ArkSwap: OVERFLOW"
  let blockTimestamp := Uint.cast32 timestamp
  let timeElapsed := Uint.sub32 blockTimestamp p.blockTimestampLast
  let p ← if timeElapsed > 0 ∧ _reserve0 ≠ 0 ∧ _reserve1 ≠ 0 then do
      let price0 ← UQ112x112.uqdiv (UQ112x112.encode _reserve1) _reserve0
      let price1 ← UQ112x112.uqdiv (UQ112x112.encode _reserve0) _reserve1
      pure { p with
        price0CumulativeLast := Uint.add p.price0CumulativeLast (Uint.mul price0 timeElapsed)
        price1CumulativeLast := Uint.add p.price1CumulativeLast (Uint.mul price1 timeElapsed) }
    else pure p
  return { p with
    reserve0 := balance0
    reserve1 := balance1
    blockTimestampLast := blockTimestamp }

/-- Mints a sixth of the growth of the root of `k` to the fee recipient. -/
def mintFee (p : ArkSwapPair) (lp : ArkSwapERC20) (feeTo : Address)
    (_reserve0 _reserve1 : Nat) : Except String (Bool × ArkSwapPair × ArkSwapERC20) :=
  if feeTo ≠ 0 then
    if p.kLast ≠ 0 then do
      let rootK ← Math.sqrt (← SafeMath.mul _reserve0 _reserve1)
      let rootKLast ← Math.sqrt p.kLast
      if rootK > rootKLast then do
        let numerator ← SafeMath.mul lp.totalSupply (← SafeMath.sub rootK rootKLast)
        let denominator ← SafeMath.add (← SafeMath.mul rootK 5) rootKLast
        let liquidity ← Uint.div numerator denominator
        if liquidity > 0 then do
          let lp ← lp.mint feeTo liquidity
          pure (true, p, lp)
        else pure (true, p, lp)
      else pure (true, p, lp)
    else pure (true, p, lp)
  else if p.kLast ≠ 0 then pure (false, { p with kLast := 0 }, lp)
  else pure (false, p, lp)

/-- `kLast` is recorded after a liquidity event while the fee is on. -/
def recordK (feeOn : Bool) (p : ArkSwapPair) : Except String ArkSwapPair :=
  if feeOn then do
    let k ← SafeMath.mul p.reserve0 p.reserve1
    pure { p with kLast := k }
  else pure p

/-- The shares a deposit is worth; the first one locks `MINIMUM_LIQUIDITY`
under the zero address. -/
def mintLiquidity (lp : ArkSwapERC20) (amount0 amount1 _reserve0 _reserve1 : Nat) :
    Except String (Nat × ArkSwapERC20) :=
  if lp.totalSupply = 0 then do
    let root ← Math.sqrt (← SafeMath.mul amount0 amount1)
    let liquidity ← SafeMath.sub root MINIMUM_LIQUIDITY
    let lp ← lp.mint 0 MINIMUM_LIQUIDITY
    pure (liquidity, lp)
  else do
    let share0 ← Uint.div (← SafeMath.mul amount0 lp.totalSupply) _reserve0
    let share1 ← Uint.div (← SafeMath.mul amount1 lp.totalSupply) _reserve1
    pure (Math.min share0 share1, lp)

def mint (w : World) (self sender dst : Address) : Except String (Nat × World) :=
  lock w self fun w => do
    let p ← w.storage self
    let balance0 := w.balanceOf p.token0 self
    let balance1 := w.balanceOf p.token1 self
    let amount0 ← SafeMath.sub balance0 p.reserve0
    let amount1 ← SafeMath.sub balance1 p.reserve1
    let (feeOn, q, lp) ← mintFee p (w.token self) w.factory.feeTo p.reserve0 p.reserve1
    let (liquidity, lp) ← mintLiquidity lp amount0 amount1 p.reserve0 p.reserve1
    require (liquidity > 0) "ArkSwap: INSUFFICIENT_LIQUIDITY_MINTED"
    let lp ← lp.mint dst liquidity
    let q ← q.update w.timestamp balance0 balance1 p.reserve0 p.reserve1
    let q ← recordK feeOn q
    let w := ((w.setToken self lp).setPair self q).emit (.sync self q.reserve0 q.reserve1)
    return (liquidity, w.emit (.mint self sender amount0 amount1))

def burn (env : Env) (w : World) (self sender dst : Address) :
    Except String ((Nat × Nat) × World) :=
  lock w self fun w => do
    let p ← w.storage self
    let balance0 := w.balanceOf p.token0 self
    let balance1 := w.balanceOf p.token1 self
    let liquidity := w.balanceOf self self
    let (feeOn, q, lp) ← mintFee p (w.token self) w.factory.feeTo p.reserve0 p.reserve1
    let amount0 ← Uint.div (← SafeMath.mul liquidity balance0) lp.totalSupply
    let amount1 ← Uint.div (← SafeMath.mul liquidity balance1) lp.totalSupply
    require (amount0 > 0 ∧ amount1 > 0) "ArkSwap: INSUFFICIENT_LIQUIDITY_BURNED"
    let lp ← lp.burn self liquidity
    let w := (w.setToken self lp).setPair self q
    let w ← safeTransfer env w p.token0 self dst amount0
    let w ← safeTransfer env w p.token1 self dst amount1
    let balance0 := w.balanceOf p.token0 self
    let balance1 := w.balanceOf p.token1 self
    let q ← q.update w.timestamp balance0 balance1 p.reserve0 p.reserve1
    let q ← recordK feeOn q
    let w := (w.setPair self q).emit (.sync self q.reserve0 q.reserve1)
    return ((amount0, amount1), w.emit (.burn self sender amount0 amount1 dst))

def amountIn (balance reserve amountOut : Nat) : Nat :=
  if balance > reserve - amountOut then balance - (reserve - amountOut) else 0

def sendOut (env : Env) (w : World) (token self dst : Address) (amountOut : Nat) :
    Except String World :=
  if amountOut > 0 then safeTransfer env w token self dst amountOut else .ok w

/-- The recipient's `arkSwapCall`, absent when the call data is empty. -/
def callback (data : Option (World → Except String World)) (w : World) : Except String World :=
  match data with
  | some arkSwapCall => arkSwapCall w
  | none => .ok w

def adjusted (balance amountIn : Nat) : Except String Nat := do
  SafeMath.sub (← SafeMath.mul balance 1000) (← SafeMath.mul amountIn 3)

/-- The fee is taken off both inputs before the products are compared. -/
def requireK (balance0 balance1 amount0In amount1In _reserve0 _reserve1 : Nat) :
    Except String Unit := do
  let balance0Adjusted ← adjusted balance0 amount0In
  let balance1Adjusted ← adjusted balance1 amount1In
  let product ← SafeMath.mul balance0Adjusted balance1Adjusted
  let k ← SafeMath.mul (← SafeMath.mul _reserve0 _reserve1) (1000 ^ 2)
  require (product ≥ k) "ArkSwap: K"

def swap (env : Env) (w : World) (self sender : Address) (amount0Out amount1Out : Nat)
    (dst : Address) (data : Option (World → Except String World)) :
    Except String (Unit × World) :=
  lock w self fun w => do
    require (amount0Out > 0 ∨ amount1Out > 0) "ArkSwap: INSUFFICIENT_OUTPUT_AMOUNT"
    let p ← w.storage self
    require (amount0Out < p.reserve0 ∧ amount1Out < p.reserve1) "ArkSwap: INSUFFICIENT_LIQUIDITY"
    require (dst ≠ p.token0 ∧ dst ≠ p.token1) "ArkSwap: INVALID_TO"
    let w ← sendOut env w p.token0 self dst amount0Out
    let w ← sendOut env w p.token1 self dst amount1Out
    let w ← callback data w
    let balance0 := w.balanceOf p.token0 self
    let balance1 := w.balanceOf p.token1 self
    let amount0In := amountIn balance0 p.reserve0 amount0Out
    let amount1In := amountIn balance1 p.reserve1 amount1Out
    require (amount0In > 0 ∨ amount1In > 0) "ArkSwap: INSUFFICIENT_INPUT_AMOUNT"
    requireK balance0 balance1 amount0In amount1In p.reserve0 p.reserve1
    let q ← w.storage self
    let q ← q.update w.timestamp balance0 balance1 p.reserve0 p.reserve1
    let w := (w.setPair self q).emit (.sync self q.reserve0 q.reserve1)
    return ((), w.emit (.swap self sender amount0In amount1In amount0Out amount1Out dst))

def skim (env : Env) (w : World) (self dst : Address) : Except String (Unit × World) :=
  lock w self fun w => do
    let p ← w.storage self
    let excess0 ← SafeMath.sub (w.balanceOf p.token0 self) p.reserve0
    let w ← safeTransfer env w p.token0 self dst excess0
    let excess1 ← SafeMath.sub (w.balanceOf p.token1 self) p.reserve1
    let w ← safeTransfer env w p.token1 self dst excess1
    return ((), w)

def sync (w : World) (self : Address) : Except String (Unit × World) :=
  lock w self fun w => do
    let p ← w.storage self
    let q ← p.update w.timestamp (w.balanceOf p.token0 self) (w.balanceOf p.token1 self)
      p.reserve0 p.reserve1
    return ((), (w.setPair self q).emit (.sync self q.reserve0 q.reserve1))

end ArkSwapPair

end ArkSwap
