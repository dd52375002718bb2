import ArkSwap.Lib.Run
import ArkSwap.Factory
import ArkSwap.PairCalls

/-! Runs of one pair: its own calls, calls on its LP token, transfers of
other tokens and changes of the fee recipient, in any order and nested in
the callbacks of swaps. -/

namespace ArkSwap

open Checked ArkSwapPair

/-- An account that can send transactions or calls to the pair: some other
contract, or one with a key. -/
abbrev Caller (self : Address) := {a : Address // a ≠ 0 ∧ a ≠ self}

abbrev Asset (self : Address) := {a : Address // a ≠ self}

/-- `pay` moves a token between accounts of which the sender is not the
pair, `issue` creates some. -/
inductive Call (self : Address) where
  | mint (sender dst : Address)
  | burn (sender dst : Address)
  | swap (sender : Address) (amount0Out amount1Out : Nat) (dst : Address)
      (data : Option (List (Call self)))
  | skim (dst : Address)
  | sync
  | transfer (sender : Caller self) (dst : Address) (value : Nat)
  | transferFrom (sender : Caller self) (src dst : Address) (value : Nat)
  | approve (sender : Caller self) (spender : Address) (value : Nat)
  | permit (owner spender : Address) (value deadline v r s : Nat)
  | pay (token src : Asset self) (dst : Address) (value : Nat)
  | issue (token : Asset self) (dst : Address) (value : Nat)
  | setFeeTo (sender feeTo : Address)
  | setFeeToSetter (sender feeToSetter : Address)

namespace Call

variable {self : Address}

mutual

def exec (env : Env) (w : World) : Call self → Except String World
  | mint sender dst => do
      let (_, w) ← ArkSwapPair.mint w self sender dst
      return w
  | burn sender dst => do
      let (_, w) ← ArkSwapPair.burn env w self sender dst
      return w
  | swap sender amount0Out amount1Out dst data => do
      let (_, w) ← ArkSwapPair.swap env w self sender amount0Out amount1Out dst
        (execData env dst data)
      return w
  | skim dst => do
      let (_, w) ← ArkSwapPair.skim env w self dst
      return w
  | sync => do
      let (_, w) ← ArkSwapPair.sync w self
      return w
  | transfer sender dst value => do
      let t ← (w.token self).transfer sender dst value
      return w.setToken self t
  | transferFrom sender src dst value => do
      let t ← (w.token self).transferFrom sender src dst value
      return w.setToken self t
  | approve sender spender value =>
      .ok (w.setToken self ((w.token self).approve sender spender value))
  | permit owner spender value deadline v r s => do
      let t ← (w.token self).permit env self w.timestamp owner spender value deadline v r s
      return w.setToken self t
  | pay token src dst value => w.transfer env token src dst value
  | issue token dst value => do
      let t ← (w.token token).mint dst value
      return w.setToken token t
  | setFeeTo sender feeTo => do
      let f ← w.factory.setFeeTo sender feeTo
      return { w with factory := f }
  | setFeeToSetter sender feeToSetter => do
      let f ← w.factory.setFeeToSetter sender feeToSetter
      return { w with factory := f }

def execData (env : Env) (dst : Address) :
    Option (List (Call self)) → Option (World → Except String World)
  | none => none
  | some calls => some fun w =>
      if dst = self then .error "function selector was not recognized" else execAll env w calls

def execAll (env : Env) (w : World) : List (Call self) → Except String World
  | [] => .ok w
  | c :: cs => do
      let w ← exec env w c
      execAll env w cs

end

def step (env : Env) (w : World) (c : Nat × Call self) : World :=
  attempt { w with timestamp := c.1 } (exec env { w with timestamp := c.1 } c.2)

abbrev run (env : Env) : World → List (Nat × Call self) → World := Run.run (step env)

end Call

structure Fresh (pool token0 token1 : Address) (w : World) : Prop where
  pair : w.pair pool = some (ArkSwapPair.initial token0 token1)
  shares : w.token pool = ArkSwapERC20.initial
  conserved0 : (w.token token0).Conserved
  conserved1 : (w.token token1).Conserved

/-- The addresses around a pair over two transfer-exact tokens. -/
structure Deployed (env : Env) (pool token0 token1 : Address) : Prop where
  pool_ne : pool ≠ 0
  tokens_ne : token0 ≠ token1
  token0_ne : token0 ≠ pool
  token1_ne : token1 ≠ pool
  standard0 : Standard env token0
  standard1 : Standard env token1

def plainEnv : Env where
  keccak256 _ := 0
  pairCodeHash := 0
  permitDigest _ _ _ _ _ _ := 0
  ecrecover _ _ _ _ := 0
  factory := 1
  router := 2
  WETH := 3
  burned _ _ _ _ := 0
  burned_le _ _ _ _ := Nat.zero_le _
  receive _ w := .ok w

/-- The same with a hash that tells short texts apart. -/
def hashEnv : Env :=
  { plainEnv with keccak256 := fun bytes => bytes.foldl (fun h b => (h * 257 + b.toNat + 1) % 2 ^ 256) 0 }

def heldToken : ArkSwapERC20 := issued .initial 7 10000

theorem heldToken_conserved : heldToken.Conserved := by
  refine ⟨?_, by norm_num [heldToken, ArkSwapERC20.initial, Uint.size]⟩
  rw [heldToken, issued_balanceOf, Ledger.sum_credit]
  simp only [ArkSwapERC20.initial, Finset.sum_const_zero, issued_totalSupply]

/-- The pair of tokens 4 and 5 at address 6. -/
def freshWorld : World where
  timestamp := 0
  token a := if a = 6 then .initial else heldToken
  pair a := if a = 6 then some (.initial 4 5) else none
  factory := { feeTo := 0, feeToSetter := 7, getPair := fun _ _ => 0, allPairs := [] }
  native _ := 0
  logs := []

theorem plainEnv_deployed : Deployed plainEnv 6 4 5 where
  pool_ne := by decide
  tokens_ne := by decide
  token0_ne := by decide
  token1_ne := by decide
  standard0 _ _ _ := rfl
  standard1 _ _ _ := rfl

theorem freshWorld_fresh : Fresh 6 4 5 freshWorld where
  pair := rfl
  shares := rfl
  conserved0 := heldToken_conserved
  conserved1 := heldToken_conserved

def firstToken : Asset 6 := ⟨4, by decide⟩

def secondToken : Asset 6 := ⟨5, by decide⟩

def holder : Asset 6 := ⟨7, by decide⟩

def firstDeposit : List (Nat × Call 6) :=
  [(1, .pay ⟨4, by decide⟩ ⟨7, by decide⟩ 6 4000), (1, .pay ⟨5, by decide⟩ ⟨7, by decide⟩ 6 4000),
    (1, .mint 7 7)]

end ArkSwap
