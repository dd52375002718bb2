import ArkSwap.World
import Mathlib.Algebra.Order.Field.Rat
import Mathlib.Algebra.Order.Floor.Ring
import Mathlib.Data.Rat.Floor

/-! The rows the indexer keeps, and the exact arithmetic on amounts and USD
figures. Addresses and hashes are numbers: the source stores them in lower
case only, which names each of them once. -/

namespace ArkSwap.GoInternal

/-- A 32-byte word: a hash, a topic or an ABI value. -/
abbrev Word := Fin (2 ^ 256)

instance Word.neZero : NeZero (2 ^ 256) := ⟨by norm_num⟩

structure Block where
  number : Nat
  hash : Word
  parentHash : Word
  timestamp : Nat
  deriving DecidableEq

structure IndexerState where
  chainID : Nat
  lastProcessedBlock : Nat
  lastProcessedBlockHash : Word
  deriving DecidableEq

/-- The zero value, with no address, stands for a token no cache knows. -/
structure Token where
  address : Option Address
  symbol : Option (List UInt8)
  name : Option (List UInt8)
  decimals : Option Nat
  metadataComplete : Bool
  isWhitelisted : Bool
  isStable : Bool
  isWKASH : Bool
  deriving DecidableEq

def Token.zero : Token :=
  { address := none, symbol := none, name := none, decimals := none, metadataComplete := false,
    isWhitelisted := false, isStable := false, isWKASH := false }

structure Pair where
  address : Address
  token0Address : Address
  token1Address : Address
  reserve0 : Nat
  reserve1 : Nat
  totalSupply : Nat
  createdBlock : Nat
  createdTxHash : Word
  createdLogIndex : Nat
  createdTimestamp : Nat
  lastSyncBlock : Option Nat
  deriving DecidableEq

inductive SwapDirection where
  | unknown
  | zeroToOne
  | oneToZero
  deriving DecidableEq

structure Swap where
  chainID : Nat
  txHash : Word
  logIndex : Nat
  blockNumber : Nat
  blockHash : Word
  timestamp : Nat
  pairAddress : Address
  sender : Address
  recipient : Address
  amount0In : Nat
  amount1In : Nat
  amount0Out : Nat
  amount1Out : Nat
  direction : SwapDirection
  tokenInAddress : Option Address
  tokenOutAddress : Option Address
  amountIn : Option Nat
  amountOut : Option Nat
  amountUSD : Option ℚ
  deriving DecidableEq

inductive LiquidityEventType where
  | mint
  | burn
  deriving DecidableEq

structure LiquidityEvent where
  chainID : Nat
  txHash : Word
  logIndex : Nat
  blockNumber : Nat
  blockHash : Word
  timestamp : Nat
  pairAddress : Address
  eventType : LiquidityEventType
  sender : Option Address
  recipient : Option Address
  amount0 : Nat
  amount1 : Nat
  amountUSD : Option ℚ
  deriving DecidableEq

structure PairSnapshot where
  pairAddress : Address
  bucketSeconds : Nat
  timestampBucket : Nat
  reserve0 : Nat
  reserve1 : Nat
  token0PriceUSD : Option ℚ
  token1PriceUSD : Option ℚ
  tvlUSD : Option ℚ
  deriving DecidableEq

def bucketHour : Nat := 3600

def bucketDay : Nat := 86400

def floorBucket (ts bucketSeconds : Nat) : Nat :=
  if bucketSeconds = 0 then ts else ts - ts % bucketSeconds

def usdScale : Nat := 18

/-- A raw amount in human units; nothing when the decimals are unknown. -/
def scaleDown (raw : Nat) (decimals : Option Nat) : Option ℚ :=
  decimals.map fun d => (raw : ℚ) / 10 ^ d

/-- The value of `big.Rat.FloatString`: rounded to a number of decimals, halves
away from zero. -/
def floatString (r : ℚ) (scale : Nat) : ℚ :=
  if 0 ≤ r then (⌊r * 10 ^ scale + 1 / 2⌋ : ℚ) / 10 ^ scale
  else -((⌊-r * 10 ^ scale + 1 / 2⌋ : ℚ) / 10 ^ scale)

def numPtr (v : Option ℚ) : Option ℚ := v.map fun r => floatString r usdScale

theorem floorBucket_eq {ts b : Nat} (hb : 0 < b) : floorBucket ts b = ts / b * b := by
  have hdiv := Nat.div_add_mod ts b
  have hcomm := Nat.mul_comm b (ts / b)
  rw [floorBucket, if_neg (by omega)]
  omega

theorem scaleDown_nonneg {raw : Nat} {decimals : Option Nat} {v : ℚ}
    (h : scaleDown raw decimals = some v) : 0 ≤ v := by
  obtain ⟨d, -, rfl⟩ := Option.map_eq_some_iff.mp h
  exact div_nonneg (Nat.cast_nonneg raw) (pow_nonneg (by norm_num) d)

end ArkSwap.GoInternal
