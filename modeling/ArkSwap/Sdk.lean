import ArkSwap.Library
import ArkSwap.Lib.Hex

/-! The client-side mirror of the library: pair addresses as texts, and amounts
over unbounded integers. -/

namespace ArkSwap

open Checked

abbrev Text := List Char

/-- A number of a fixed width as `0x` and its digits. -/
def hexText (k n : Nat) : Text := '0' :: 'x' :: Hex.digits k n

/-- An address in any letter case. -/
def Spells (text : Text) (a : Address) : Prop :=
  ∃ digits, text = '0' :: 'x' :: digits ∧ digits.map Char.toLower = Hex.digits 40 a.val

/-- A typed value of a packed encoding. -/
inductive Packed where
  | address (value : Text)
  | bytes (size : Nat) (value : Text)

/-- The digits a value contributes; an address must be in the letter case that
`getAddress` gives. -/
inductive Packs (getAddress : Text → Except String Text) : Packed → Text → Prop where
  | address {x t : Text} {a : Address} (h : getAddress x = .ok t) (ht : Spells t a) :
      Packs getAddress (.address t) (Hex.digits 40 a.val)
  | bytes (k n : Nat) : Packs getAddress (.bytes k (hexText (2 * k) n)) (Hex.digits (2 * k) n)

/-- The library for addresses, encodings and hashes, as far as it is documented. -/
structure Viem (env : Env) where
  getAddress : Text → Except String Text
  encodePacked : List Packed → Except String Text
  keccak256 : Text → Text
  getAddress_spells : ∀ {text : Text} {a : Address}, Spells text a →
    ∃ t, getAddress text = .ok t ∧ Spells t a
  encodePacked_digits : ∀ {items : List Packed} {digits : List Text},
    List.Forall₂ (Packs getAddress) items digits →
      encodePacked items = .ok ('0' :: 'x' :: digits.flatten)
  keccak256_bytes : ∀ bytes : List UInt8,
    keccak256 ('0' :: 'x' :: Hex.ofBytes bytes) = hexText 64 (env.keccak256 bytes)

namespace Sdk

def toLowerCase (text : Text) : Text := text.map Char.toLower

/-- The last `k` characters. -/
def sliceLast (k : Nat) (text : Text) : Text := text.drop (text.length - k)

def PAIR_INIT_CODE_HASH : Text :=
  hexText 64 0x30820c342fc28c16c80e536d138c0c5290a90de3583c2a126a9e19b519432e74

variable {env : Env} (viem : Viem env)

def sortTokens (tokenA tokenB : Text) : Except String (Text × Text) := do
  let a ← viem.getAddress tokenA
  let b ← viem.getAddress tokenB
  require (toLowerCase a ≠ toLowerCase b) "ArkSwap: IDENTICAL_ADDRESSES"
  return if toLowerCase a < toLowerCase b then (a, b) else (b, a)

def computePairAddress (factory tokenA tokenB : Text) : Except String Text := do
  let (token0, token1) ← sortTokens viem tokenA tokenB
  let salt := viem.keccak256 (← viem.encodePacked [.address token0, .address token1])
  let hash := viem.keccak256 (← viem.encodePacked
    [.bytes 1 (hexText 2 0xff), .address (← viem.getAddress factory), .bytes 32 salt,
      .bytes 32 PAIR_INIT_CODE_HASH])
  viem.getAddress ('0' :: 'x' :: sliceLast 40 hash)

def FEE_NUMERATOR : Int := 997

def FEE_DENOMINATOR : Int := 1000

def getAmountOut (amountIn reserveIn reserveOut : Int) : Except String Int := do
  require (amountIn > 0) "ArkSwapLibrary: INSUFFICIENT_INPUT_AMOUNT"
  require (reserveIn > 0 ∧ reserveOut > 0) "ArkSwapLibrary: INSUFFICIENT_LIQUIDITY"
  let amountInWithFee := amountIn * FEE_NUMERATOR
  return (amountInWithFee * reserveOut).tdiv (reserveIn * FEE_DENOMINATOR + amountInWithFee)

def getAmountIn (amountOut reserveIn reserveOut : Int) : Except String Int := do
  require (amountOut > 0) "ArkSwapLibrary: INSUFFICIENT_OUTPUT_AMOUNT"
  require (reserveIn > 0 ∧ reserveOut > 0) "ArkSwapLibrary: INSUFFICIENT_LIQUIDITY"
  require (amountOut < reserveOut) "ArkSwapLibrary: INSUFFICIENT_LIQUIDITY"
  let numerator := reserveIn * amountOut * FEE_DENOMINATOR
  let denominator := (reserveOut - amountOut) * FEE_NUMERATOR
  return numerator.tdiv denominator + 1

def quote (amountA reserveA reserveB : Int) : Except String Int := do
  require (amountA > 0) "ArkSwapLibrary: INSUFFICIENT_AMOUNT"
  require (reserveA > 0 ∧ reserveB > 0) "ArkSwapLibrary: INSUFFICIENT_LIQUIDITY"
  return (amountA * reserveB).tdiv reserveA

end Sdk

end ArkSwap
