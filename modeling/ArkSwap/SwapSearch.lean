import ArkSwap.Lib.Best
import ArkSwap.SwapRoute
import ArkSwap.Tokens

/-! The search for a route in the swap form: candidate paths through the hubs,
one batch of reads for all their pools, and the best of the quotes. -/

namespace ArkSwap

open Checked Web

namespace UseSwapRoute

inductive SwapSide where
  | exactIn
  | exactOut
  deriving DecidableEq

structure Hub where
  addr : Text
  symbol : Text

structure Candidate where
  path : List Text
  symbols : List Text

structure SwapRoute extends Quote where
  path : List Text
  symbols : List Text
  deriving DecidableEq

inductive PairFunction where
  | getReserves
  | token0
  deriving DecidableEq

structure Contract where
  address : Text
  functionName : PairFunction
  deriving DecidableEq

inductive Result where
  | failure
  | reserves (reserve0 reserve1 : Int)
  | address (value : Text)
  deriving DecidableEq

def Result.asReserves : Result → Option (Int × Int)
  | reserves reserve0 reserve1 => some (reserve0, reserve1)
  | _ => none

def Result.asAddress : Result → Option Text
  | address value => some value
  | _ => none

section Search

variable {env : Env} (viem : Viem env) (wkashAddress : Option Text) (factory : Option Text)

def isOther (tokenIn tokenOut h : Token) : Except String Bool := do
  if ← sameToken h tokenIn then return false else return !(← sameToken h tokenOut)

def usableHubs (hubs : List Token) (tokenIn tokenOut : Token) : Except String (List Hub) := do
  let kept ← hubs.filterM (isOther tokenIn tokenOut)
  let routed := kept.filterMap fun h =>
    (routedAddress wkashAddress h).map fun addr => ({ addr := addr, symbol := h.symbol } : Hub)
  return routed.filter fun h =>
    some (Sdk.toLowerCase h.addr) ≠ (routedAddress wkashAddress tokenIn).map Sdk.toLowerCase ∧
      some (Sdk.toLowerCase h.addr) ≠ (routedAddress wkashAddress tokenOut).map Sdk.toLowerCase

/-- Direct, through each hub, and through each ordered pair of distinct hubs. -/
def candidatesFrom (hubs : List Hub) (inAddr outAddr symbolIn symbolOut : Text) : List Candidate :=
  if Sdk.toLowerCase inAddr = Sdk.toLowerCase outAddr then []
  else
    ⟨[inAddr, outAddr], [symbolIn, symbolOut]⟩ ::
      (hubs.map fun h => ⟨[inAddr, h.addr, outAddr], [symbolIn, h.symbol, symbolOut]⟩) ++
      hubs.flatMap fun a => hubs.filterMap fun b =>
        if Sdk.toLowerCase a.addr = Sdk.toLowerCase b.addr then none
        else some ⟨[inAddr, a.addr, b.addr, outAddr], [symbolIn, a.symbol, b.symbol, symbolOut]⟩

def candidates (hubs : List Token) (tokenIn tokenOut : Token) : Except String (List Candidate) := do
  let hubs ← usableHubs wkashAddress hubs tokenIn tokenOut
  match routedAddress wkashAddress tokenIn, routedAddress wkashAddress tokenOut with
  | some inAddr, some outAddr =>
      return candidatesFrom hubs inAddr outAddr tokenIn.symbol tokenOut.symbol
  | _, _ => return []

/-- A key is set again in its first place. -/
def setKey (keys : List Text) (key : Text) : List Text := if key ∈ keys then keys else keys ++ [key]

def addPair (factory : Text) (keys : List Text) (hop : Text × Text) : Except String (List Text) := do
  let addr ← Sdk.computePairAddress viem factory hop.1 hop.2
  return setKey keys (Sdk.toLowerCase addr)

/-- Every pair that a candidate needs, once. -/
def pairAddrs (factory : Text) (candidates : List Candidate) : Except String (List Text) :=
  (candidates.flatMap fun c => c.path.zip c.path.tail).foldlM (addPair viem factory) []

def contracts (pairAddrs : List Text) : List Contract :=
  pairAddrs.flatMap fun p => [⟨p, .getReserves⟩, ⟨p, .token0⟩]

/-- A pair that was never created has no results, and an empty pool is skipped. -/
def liveReserves (reserves token0 : Option Result) : Option PoolReserves :=
  match reserves.bind Result.asReserves, token0.bind Result.asAddress with
  | some (reserve0, reserve1), some t0 =>
      if reserve0 = 0 ∨ reserve1 = 0 then none else some ⟨t0, reserve0, reserve1⟩
  | _, _ => none

/-- The pair at a place, by its two results. -/
def addPool (data : List Result) (pools : Pools) (p : Text × Nat) : Pools :=
  match liveReserves data[p.2 * 2]? data[p.2 * 2 + 1]? with
  | some pool => Function.update pools (Sdk.toLowerCase p.1) (some pool)
  | none => pools

def readPools (pairAddrs : List Text) (data : Option (List Result)) : Pools :=
  match data with
  | none => fun _ => none
  | some data => pairAddrs.zipIdx.foldl (addPool data) fun _ => none

def usableHops (factory : Text) (pools : Pools) : List Text → Except String (Option (List Hop))
  | tokenIn :: tokenOut :: path => do
      let pair ← Sdk.computePairAddress viem factory tokenIn tokenOut
      if (pools (Sdk.toLowerCase pair)).isNone then return none
      return (← usableHops factory pools (tokenOut :: path)).map fun hops =>
        { pair := pair, tokenIn := tokenIn, tokenOut := tokenOut } :: hops
  | _ => return some []

def quote (side : SwapSide) (hops : List Hop) (pools : Pools) (amount : Int) :
    Except String (Option Quote) :=
  match side with
  | .exactIn => quoteExactIn hops pools amount
  | .exactOut => quoteExactOut hops pools amount

def better (side : SwapSide) (best : Option SwapRoute) (evaluated : Quote) : Bool :=
  match best with
  | none => true
  | some best =>
      match side with
      | .exactIn => evaluated.amountOut > best.amountOut
      | .exactOut => evaluated.amountIn < best.amountIn

/-- A candidate that lacks a pool, or whose quote throws or is nothing, is skipped. -/
def consider (factory : Text) (pools : Pools) (side : SwapSide) (amount : Int)
    (best : Option SwapRoute) (c : Candidate) : Except String (Option SwapRoute) := do
  match ← usableHops viem factory pools c.path with
  | none => return best
  | some hops =>
      match quote side hops pools amount with
      | .ok (some evaluated) =>
          return if better side best evaluated then
            some { evaluated with path := c.path, symbols := c.symbols } else best
      | _ => return best

/-- The route; `answer` is what the chain answers once the reads are in. -/
def useSwapRoute (hubs : List Token) (tokenIn tokenOut : Token) (amount : Option Int)
    (side : SwapSide) (answer : Option (Contract → Result)) : Except String (Option SwapRoute) := do
  let candidates ← candidates wkashAddress hubs tokenIn tokenOut
  let pairAddrs ← match factory with
    | some factory => pairAddrs viem factory candidates
    | none => pure []
  let pools := readPools pairAddrs (answer.map fun answer => (contracts pairAddrs).map answer)
  match amount, factory with
  | some amount, some factory =>
      if amount > 0 then candidates.foldlM (consider viem factory pools side amount) none
      else return none
  | _, _ => return none

end Search

end UseSwapRoute

end ArkSwap
