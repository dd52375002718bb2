import ArkSwap.Models
import Mathlib.Data.List.Sort

/-! USD figures: prices read from pool reserves, the value of a swap or a
deposit from its stablecoin side, and the TVL of a pair. -/

namespace ArkSwap.GoInternal

structure Pool where
  address : Address
  token0 : Token
  token1 : Token
  reserve0 : Nat
  reserve1 : Nat
  deriving DecidableEq

inductive PriceSource where
  | stableAnchor
  | directStable
  | viaWKASH
  deriving DecidableEq

structure Price where
  usd : ℚ
  source : PriceSource
  sourcePair : Option Address
  liquidityUSD : Option ℚ
  deriving DecidableEq

structure Engine where
  pools : List Pool
  minLiquidityUSD : ℚ

/-- The other token of a pool that holds `address`, with the reserve of this
token and of the other. -/
def counterpart (p : Pool) (address : Option Address) : Option (Token × Nat × Nat) :=
  if address = p.token0.address then some (p.token1, p.reserve0, p.reserve1)
  else if address = p.token1.address then some (p.token0, p.reserve1, p.reserve0)
  else none

/-- A price and a depth estimate from two raw reserves. -/
def ratio (this : Token) (thisRes : Nat) (other : Token) (otherRes : Nat) (otherPriceUSD : ℚ) :
    Option (ℚ × ℚ) :=
  match scaleDown thisRes this.decimals, scaleDown otherRes other.decimals with
  | some thisHuman, some otherHuman =>
      if thisHuman ≤ 0 ∨ otherHuman ≤ 0 then none
      else some (otherHuman * otherPriceUSD / thisHuman * 1, otherHuman * otherPriceUSD * 2)
  | _, _ => none

namespace Engine

/-- The price a pool gives a token through its other token, when that token is
accepted and the pool clears the liquidity floor. -/
def candidate (e : Engine) (token : Token) (accepts : Token → Bool) (otherPriceUSD : ℚ)
    (source : PriceSource) (p : Pool) : Option Price :=
  match counterpart p token.address with
  | none => none
  | some (other, tokenRes, otherRes) =>
      if accepts other then
        match ratio token tokenRes other otherRes otherPriceUSD with
        | none => none
        | some (price, liquidity) =>
            if liquidity < e.minLiquidityUSD then none
            else some { usd := price, source := source, sourcePair := some p.address,
                        liquidityUSD := some liquidity }
      else none

/-- A later pool replaces the best one only when it is strictly deeper. -/
def deeper (best : Option Price) (p : Price) : Option Price :=
  match best with
  | none => some p
  | some b => if b.liquidityUSD.getD 0 < p.liquidityUSD.getD 0 then some p else some b

def deepest (e : Engine) (token : Token) (accepts : Token → Bool) (otherPriceUSD : ℚ)
    (source : PriceSource) : Option Price :=
  (e.pools.filterMap (e.candidate token accepts otherPriceUSD source)).foldl deeper none

def directStable (e : Engine) (token : Token) : Option Price :=
  e.deepest token Token.isStable 1 .directStable

/-- WKASH from the deepest pool of it with a stablecoin. -/
def wkashPrice (e : Engine) : Option Price :=
  e.pools.findSome? fun p =>
    [p.token0, p.token1].findSome? fun side =>
      if side.isWKASH then e.directStable side else none

def viaWKASH (e : Engine) (token : Token) : Option Price :=
  match e.wkashPrice with
  | none => none
  | some wkashPrice => e.deepest token Token.isWKASH wkashPrice.usd .viaWKASH

def priceUSD (e : Engine) (token : Token) : Option Price :=
  if token.isStable then
    some { usd := 1, source := .stableAnchor, sourcePair := none, liquidityUSD := none }
  else
    match e.directStable token with
    | some p => some p
    | none => e.viaWKASH token

end Engine

def sortPoolsByAddress (pools : List Pool) : List Pool :=
  pools.insertionSort fun p q => p.address ≤ q.address

/-- Nothing when either side cannot be priced or scaled. -/
def pairTVL (reserve0 : Nat) (token0 : Token) (price0 : Option ℚ) (reserve1 : Nat) (token1 : Token)
    (price1 : Option ℚ) : Option ℚ :=
  match price0, price1, scaleDown reserve0 token0.decimals, scaleDown reserve1 token1.decimals with
  | some price0, some price1, some h0, some h1 => some (h0 * price0 + h1 * price1)
  | _, _, _, _ => none

/-- The direction of a swap, when exactly one side came in. -/
def normalizeSwap (s : Swap) (token0 token1 : Address) : Swap :=
  if 0 < s.amount0In ∧ ¬0 < s.amount1In then
    { s with direction := .zeroToOne, tokenInAddress := some token0, tokenOutAddress := some token1,
             amountIn := some s.amount0In, amountOut := some s.amount1Out }
  else if 0 < s.amount1In ∧ ¬0 < s.amount0In then
    { s with direction := .oneToZero, tokenInAddress := some token1, tokenOutAddress := some token0,
             amountIn := some s.amount1In, amountOut := some s.amount0Out }
  else
    { s with direction := .unknown, tokenInAddress := none, tokenOutAddress := none,
             amountIn := none, amountOut := none }

/-- The scaled amount of a stablecoin, nothing for any other token. -/
def stableLeg (token : Token) (amount : Nat) : Option ℚ :=
  if token.isStable then scaleDown amount token.decimals else none

def stableLegUSD (tokenIn : Token) (amountIn : Nat) (tokenOut : Token) (amountOut : Nat) :
    Option ℚ :=
  match stableLeg tokenIn amountIn with
  | some v => some v
  | none => stableLeg tokenOut amountOut

end ArkSwap.GoInternal
