import ArkSwap.PairSolvency
import ArkSwap.FactoryRegistry
import ArkSwap.RouterCalls

/-! The whole exchange: calls of any accounts to the factory, to all pairs, to tokens and
to wrapped KASH, in any order and nested in the callbacks of swaps, and the transactions
made of them. -/

namespace ArkSwap

open Checked ArkSwapPair

def Pooled (env : Env) (a : Address) : Prop :=
  ∃ token0 token1, a = create2 env (pairSalt env token0 token1) env.pairCodeHash

/-- Who calls on its own account: none of the absent, no pair and not wrapped KASH, whose
code never does. -/
abbrev Account (env : Env) (absent : Set Address) :=
  {a : Address // a ≠ 0 ∧ a ≠ env.WETH ∧ ¬Pooled env a ∧ a ∉ absent}

abbrev Coin (env : Env) := {a : Address // a ≠ env.WETH ∧ ¬Pooled env a}

namespace WKASH

/-- A holder's code may refuse native KASH; with the stipend of a `transfer` it can do nothing
else. The router takes what wrapped KASH sends. -/
def accept (env : Env) (w : World) (dst : Address) : Except String Unit :=
  if dst = env.router then .ok ()
  else (env.receive dst w).map fun _ => ()

def unwrap (env : Env) (w : World) (src : Address) (value : Nat) : Except String World := do
  let t ← orFail ((w.token env.WETH).burn src value) "WKASH: INSUFFICIENT_BALANCE"
  require (value ≤ w.native env.WETH) "insufficient balance"
  let w := (w.setToken env.WETH t).moveNative env.WETH src value
  accept env w src
  return w

theorem unwrap_eq_ok {env : Env} {w w' : World} {src : Address} {value : Nat} :
    unwrap env w src value = .ok w' ↔ ∃ t, (w.token env.WETH).burn src value = .ok t ∧
      value ≤ w.native env.WETH ∧ accept env w' src = .ok () ∧
      w' = (w.setToken env.WETH t).moveNative env.WETH src value := by
  simp only [unwrap, bind_eq_ok, orFail_eq_ok, require_eq_ok, pure_eq_ok, Except.ok.injEq]
  constructor
  · rintro ⟨t, hburn, ⟨⟩, hv, ⟨⟩, haccept, rfl⟩
    exact ⟨t, hburn, hv, haccept, rfl⟩
  · rintro ⟨t, hburn, hv, haccept, rfl⟩
    exact ⟨t, hburn, (), hv, (), haccept, rfl⟩

theorem withdraw_eq_unwrap (env : Env) (w : World) (value : Nat) :
    withdraw env w value = unwrap env w env.router value := by
  unfold withdraw unwrap accept
  simp only [if_pos, ok_bind]

end WKASH

/-- What calls do to the exchange. The recipient of a flash swap may call anything in its
turn; the fee recipient changes only where `fees` holds, and the absent neither call nor
sign anything. -/
inductive Reach (env : Env) (fees : Prop) (absent : Set Address) : World → World → Prop where
  | refl (w : World) : Reach env fees absent w w
  | trans {w w' w'' : World} : Reach env fees absent w w' → Reach env fees absent w' w'' → Reach env fees absent w w''
  | transfer {w w' : World} {token dst : Address} {value : Nat} (src : Account env absent) :
      w.transfer env token src dst value = .ok w' → Reach env fees absent w w'
  | transferFrom {w w' : World} {token src dst : Address} {value : Nat} (spender : Account env absent) :
      w.transferFrom env token spender src dst value = .ok w' → Reach env fees absent w w'
  | approve (w : World) (token : Address) (owner : Account env absent) (spender : Address) (value : Nat) :
      Reach env fees absent w (w.setToken token ((w.token token).approve owner spender value))
  | permit {w : World} {self owner spender : Address} {value deadline v r s : Nat}
      {t : ArkSwapERC20} : owner ∉ absent →
      (w.token self).permit env self w.timestamp owner spender value deadline v r s = .ok t →
      Reach env fees absent w (w.setToken self t)
  | issue {w : World} {dst : Address} {value : Nat} {t : ArkSwapERC20} (token : Coin env) :
      (w.token token).mint dst value = .ok t → Reach env fees absent w (w.setToken token t)
  | deposit {w w' : World} {value : Nat} (src : Account env absent) :
      WKASH.deposit env w src value = .ok w' → Reach env fees absent w w'
  | unwrap {w w' : World} {value : Nat} (src : Account env absent) :
      WKASH.unwrap env w src value = .ok w' → Reach env fees absent w w'
  | send {w : World} {dst : Address} {value : Nat} (src : Account env absent) :
      value ≤ w.native src → Reach env fees absent w (w.moveNative src dst value)
  | createPair {w w' : World} {tokenA tokenB pair : Address} :
      ArkSwapFactory.createPair env w tokenA tokenB = .ok (pair, w') → Reach env fees absent w w'
  | setFeeTo {w : World} {sender feeTo : Address} {f : ArkSwapFactory} : fees →
      w.factory.setFeeTo sender feeTo = .ok f → Reach env fees absent w { w with factory := f }
  | setFeeToSetter {w : World} {sender feeToSetter : Address} {f : ArkSwapFactory} :
      w.factory.setFeeToSetter sender feeToSetter = .ok f →
      Reach env fees absent w { w with factory := f }
  | mint {w w' : World} {self sender dst : Address} {liquidity : Nat} :
      ArkSwapPair.mint w self sender dst = .ok (liquidity, w') → Reach env fees absent w w'
  | burn {w w' : World} {self sender dst : Address} {amounts : Nat × Nat} :
      ArkSwapPair.burn env w self sender dst = .ok (amounts, w') → Reach env fees absent w w'
  | swap {w w' : World} {self sender dst : Address} {amount0Out amount1Out : Nat}
      {data : Option (World → Except String World)} :
      (∀ arkSwapCall, data = some arkSwapCall →
        ∀ u v, arkSwapCall u = .ok v → Reach env fees absent u v) →
      ArkSwapPair.swap env w self sender amount0Out amount1Out dst data = .ok ((), w') →
      Reach env fees absent w w'
  | skim {w w' : World} {self dst : Address} :
      ArkSwapPair.skim env w self dst = .ok ((), w') → Reach env fees absent w w'
  | sync {w w' : World} {self : Address} :
      ArkSwapPair.sync w self = .ok ((), w') → Reach env fees absent w w'

/-- The addresses around the exchange: pairs hold none of their own shares as an asset, and
no contract has a key. -/
structure Grounds (env : Env) : Prop where
  standard : ∀ t, Standard env t
  WETH_free : ¬Pooled env env.WETH
  unsigned : ∀ digest v r s, ¬Pooled env (env.ecrecover digest v r s)
  apart : ∀ token0 token1,
    create2 env (pairSalt env token0 token1) env.pairCodeHash ≠ token0 ∧
      create2 env (pairSalt env token0 token1) env.pairCodeHash ≠ token1

/-- The router is an account among others, and what an account does when native KASH reaches
it are calls too. -/
structure Premises (env : Env) (fees : Prop) (absent : Set Address) : Prop
    extends Grounds env where
  router_ne : env.router ≠ 0
  router_ne_WETH : env.router ≠ env.WETH
  router_free : ¬Pooled env env.router
  router_present : env.router ∉ absent
  receive : ∀ a w w', env.receive a w = .ok w' → Reach env fees absent w w'

abbrev Transaction (env : Env) (fees : Prop) (absent : Set Address) :=
  {tx : World → Except String World // ∀ w w', tx w = .ok w' → Reach env fees absent w w'}

namespace Exchange

variable {env : Env} {fees : Prop} {absent : Set Address}

/-- A transaction in a block of the given time; a failed one changes nothing. -/
def step (w : World) (tx : Nat × Transaction env fees absent) : World :=
  attempt { w with timestamp := tx.1 } (tx.2.val { w with timestamp := tx.1 })

abbrev run : World → List (Nat × Transaction env fees absent) → World := Run.run step

structure Genesis (env : Env) (w : World) : Prop where
  factory : FactoryCall.NewFactory w
  unpaired : ∀ a, w.pair a = none
  conserved : ∀ t, (w.token t).Conserved
  unapproved : ∀ t o s, o = 0 ∨ Pooled env o → (w.token t).allowance o s = 0
  vacant : ∀ a, Pooled env a → (w.token a).totalSupply = 0
  backed : (w.token env.WETH).totalSupply ≤ w.native env.WETH

end Exchange

end ArkSwap
