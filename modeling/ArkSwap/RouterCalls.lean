import ArkSwap.RouterEmpty
import ArkSwap.RouterQuote

/-! The external functions of the router as calls, and what every one of
them leaves behind: an empty router and an exact account of native KASH. -/

namespace ArkSwap

open Checked ArkSwapPair ArkSwapLibrary ArkSwapRouter02

inductive RouterCall where
  | addLiquidity (tokenA tokenB : Address)
      (amountADesired amountBDesired amountAMin amountBMin : Nat) (dst : Address) (deadline : Nat)
  | addLiquidityETH (value : Nat) (token : Address)
      (amountTokenDesired amountTokenMin amountETHMin : Nat) (dst : Address) (deadline : Nat)
  | removeLiquidity (tokenA tokenB : Address) (liquidity amountAMin amountBMin : Nat)
      (dst : Address) (deadline : Nat)
  | removeLiquidityETH (token : Address) (liquidity amountTokenMin amountETHMin : Nat)
      (dst : Address) (deadline : Nat)
  | removeLiquidityWithPermit (tokenA tokenB : Address) (liquidity amountAMin amountBMin : Nat)
      (dst : Address) (deadline : Nat) (sig : Permit)
  | removeLiquidityETHWithPermit (token : Address) (liquidity amountTokenMin amountETHMin : Nat)
      (dst : Address) (deadline : Nat) (sig : Permit)
  | removeLiquidityETHSupportingFeeOnTransferTokens (token : Address)
      (liquidity amountTokenMin amountETHMin : Nat) (dst : Address) (deadline : Nat)
  | removeLiquidityETHWithPermitSupportingFeeOnTransferTokens (token : Address)
      (liquidity amountTokenMin amountETHMin : Nat) (dst : Address) (deadline : Nat)
      (sig : Permit)
  | swapExactTokensForTokens (amountIn amountOutMin : Nat) (path : List Address)
      (dst : Address) (deadline : Nat)
  | swapTokensForExactTokens (amountOut amountInMax : Nat) (path : List Address)
      (dst : Address) (deadline : Nat)
  | swapExactETHForTokens (value amountOutMin : Nat) (path : List Address) (dst : Address)
      (deadline : Nat)
  | swapTokensForExactETH (amountOut amountInMax : Nat) (path : List Address) (dst : Address)
      (deadline : Nat)
  | swapExactTokensForETH (amountIn amountOutMin : Nat) (path : List Address) (dst : Address)
      (deadline : Nat)
  | swapETHForExactTokens (value amountOut : Nat) (path : List Address) (dst : Address)
      (deadline : Nat)
  | swapExactTokensForTokensSupportingFeeOnTransferTokens (amountIn amountOutMin : Nat)
      (path : List Address) (dst : Address) (deadline : Nat)
  | swapExactETHForTokensSupportingFeeOnTransferTokens (value amountOutMin : Nat)
      (path : List Address) (dst : Address) (deadline : Nat)
  | swapExactTokensForETHSupportingFeeOnTransferTokens (amountIn amountOutMin : Nat)
      (path : List Address) (dst : Address) (deadline : Nat)

namespace RouterCall

def exec (env : Env) (w : World) (sender : Address) : RouterCall → Except String World
  | addLiquidity tokenA tokenB desA desB minA minB dst deadline => do
      let (_, w) ← ArkSwapRouter02.addLiquidity env w sender tokenA tokenB desA desB minA minB
        dst deadline
      return w
  | addLiquidityETH value token desired minToken minETH dst deadline => do
      let (_, w) ← ArkSwapRouter02.addLiquidityETH env w sender value token desired minToken
        minETH dst deadline
      return w
  | removeLiquidity tokenA tokenB liquidity minA minB dst deadline => do
      let (_, w) ← ArkSwapRouter02.removeLiquidity env w sender tokenA tokenB liquidity minA
        minB dst deadline
      return w
  | removeLiquidityETH token liquidity minToken minETH dst deadline => do
      let (_, w) ← ArkSwapRouter02.removeLiquidityETH env w sender token liquidity minToken
        minETH dst deadline
      return w
  | removeLiquidityWithPermit tokenA tokenB liquidity minA minB dst deadline sig => do
      let (_, w) ← ArkSwapRouter02.removeLiquidityWithPermit env w sender tokenA tokenB
        liquidity minA minB dst deadline sig
      return w
  | removeLiquidityETHWithPermit token liquidity minToken minETH dst deadline sig => do
      let (_, w) ← ArkSwapRouter02.removeLiquidityETHWithPermit env w sender token liquidity
        minToken minETH dst deadline sig
      return w
  | removeLiquidityETHSupportingFeeOnTransferTokens token liquidity minToken minETH dst
      deadline => do
      let (_, w) ← ArkSwapRouter02.removeLiquidityETHSupportingFeeOnTransferTokens env w sender
        token liquidity minToken minETH dst deadline
      return w
  | removeLiquidityETHWithPermitSupportingFeeOnTransferTokens token liquidity minToken minETH
      dst deadline sig => do
      let (_, w) ← ArkSwapRouter02.removeLiquidityETHWithPermitSupportingFeeOnTransferTokens env
        w sender token liquidity minToken minETH dst deadline sig
      return w
  | swapExactTokensForTokens amountIn amountOutMin path dst deadline => do
      let (_, w) ← ArkSwapRouter02.swapExactTokensForTokens env w sender amountIn amountOutMin
        path dst deadline
      return w
  | swapTokensForExactTokens amountOut amountInMax path dst deadline => do
      let (_, w) ← ArkSwapRouter02.swapTokensForExactTokens env w sender amountOut amountInMax
        path dst deadline
      return w
  | swapExactETHForTokens value amountOutMin path dst deadline => do
      let (_, w) ← ArkSwapRouter02.swapExactETHForTokens env w sender value amountOutMin path
        dst deadline
      return w
  | swapTokensForExactETH amountOut amountInMax path dst deadline => do
      let (_, w) ← ArkSwapRouter02.swapTokensForExactETH env w sender amountOut amountInMax path
        dst deadline
      return w
  | swapExactTokensForETH amountIn amountOutMin path dst deadline => do
      let (_, w) ← ArkSwapRouter02.swapExactTokensForETH env w sender amountIn amountOutMin path
        dst deadline
      return w
  | swapETHForExactTokens value amountOut path dst deadline => do
      let (_, w) ← ArkSwapRouter02.swapETHForExactTokens env w sender value amountOut path dst
        deadline
      return w
  | swapExactTokensForTokensSupportingFeeOnTransferTokens amountIn amountOutMin path dst
      deadline => do
      let (_, w) ← ArkSwapRouter02.swapExactTokensForTokensSupportingFeeOnTransferTokens env w
        sender amountIn amountOutMin path dst deadline
      return w
  | swapExactETHForTokensSupportingFeeOnTransferTokens value amountOutMin path dst deadline => do
      let (_, w) ← ArkSwapRouter02.swapExactETHForTokensSupportingFeeOnTransferTokens env w
        sender value amountOutMin path dst deadline
      return w
  | swapExactTokensForETHSupportingFeeOnTransferTokens amountIn amountOutMin path dst
      deadline => do
      let (_, w) ← ArkSwapRouter02.swapExactTokensForETHSupportingFeeOnTransferTokens env w
        sender amountIn amountOutMin path dst deadline
      return w

def recipient : RouterCall → Address
  | addLiquidity _ _ _ _ _ _ dst _ => dst
  | addLiquidityETH _ _ _ _ _ dst _ => dst
  | removeLiquidity _ _ _ _ _ dst _ => dst
  | removeLiquidityETH _ _ _ _ dst _ => dst
  | removeLiquidityWithPermit _ _ _ _ _ dst _ _ => dst
  | removeLiquidityETHWithPermit _ _ _ _ dst _ _ => dst
  | removeLiquidityETHSupportingFeeOnTransferTokens _ _ _ _ dst _ => dst
  | removeLiquidityETHWithPermitSupportingFeeOnTransferTokens _ _ _ _ dst _ _ => dst
  | swapExactTokensForTokens _ _ _ dst _ => dst
  | swapTokensForExactTokens _ _ _ dst _ => dst
  | swapExactETHForTokens _ _ _ dst _ => dst
  | swapTokensForExactETH _ _ _ dst _ => dst
  | swapExactTokensForETH _ _ _ dst _ => dst
  | swapETHForExactTokens _ _ _ dst _ => dst
  | swapExactTokensForTokensSupportingFeeOnTransferTokens _ _ _ dst _ => dst
  | swapExactETHForTokensSupportingFeeOnTransferTokens _ _ _ dst _ => dst
  | swapExactTokensForETHSupportingFeeOnTransferTokens _ _ _ dst _ => dst

def value : RouterCall → Nat
  | addLiquidityETH value _ _ _ _ _ _ => value
  | swapExactETHForTokens value _ _ _ _ => value
  | swapETHForExactTokens value _ _ _ _ => value
  | swapExactETHForTokensSupportingFeeOnTransferTokens value _ _ _ _ => value
  | _ => 0

/-- The tokens on the way to wrapped KASH, when a call pays out in native
KASH: the last two are those of the pair that pays the router. -/
def tokens (env : Env) : RouterCall → List Address
  | removeLiquidityETH token _ _ _ _ _ => [token, env.WETH]
  | removeLiquidityETHWithPermit token _ _ _ _ _ _ => [token, env.WETH]
  | removeLiquidityETHSupportingFeeOnTransferTokens token _ _ _ _ _ => [token, env.WETH]
  | removeLiquidityETHWithPermitSupportingFeeOnTransferTokens token _ _ _ _ _ _ =>
      [token, env.WETH]
  | swapTokensForExactETH _ _ path _ _ => path
  | swapExactTokensForETH _ _ path _ _ => path
  | swapExactTokensForETHSupportingFeeOnTransferTokens _ _ path _ _ => path
  | _ => []

variable {env : Env} {sender : Address} {w w' : World}

/-- Every successful call leaves the router empty, and of the KASH sent
along the caller has spent what was wrapped. -/
theorem exec_closed {c : RouterCall} (h : c.exec env w sender = .ok w')
    (hs : Setting env w sender) (he : Empty env w) (hd : c.recipient ≠ env.router)
    (hdw : c.recipient ≠ env.WETH) (hpass : Passive env sender c.recipient)
    (ht : ∀ pre a b, c.tokens env = pre ++ [a, b] → Trades env w a b) :
    ∃ wrapped refunded unwrapped,
      Closed env sender c.recipient w w' c.value wrapped refunded unwrapped ∧
        (c.value = 0 ∨ unwrapped = 0) := by
  have hb := Books.start hs he
  cases c <;> simp only [exec, bind_eq_ok, pure_eq_ok, Except.ok.injEq] at h <;>
    obtain ⟨⟨r, w₁⟩, h, rfl⟩ := h
  case addLiquidity => exact ⟨0, 0, 0, addLiquidity_closed hs he hd h, .inl rfl⟩
  case addLiquidityETH =>
    obtain ⟨v, hc⟩ := addLiquidityETH_closed hs he hd h
    exact ⟨v, _, 0, hc, .inr rfl⟩
  case removeLiquidity => exact ⟨0, 0, 0, removeLiquidity_closed hs hb hd h, .inl rfl⟩
  case removeLiquidityETH =>
    obtain ⟨v, hc⟩ := removeLiquidityETH_closed hs hb (ht [] _ _ rfl) hd hdw hpass h
    exact ⟨0, 0, v, hc, .inl rfl⟩
  case removeLiquidityWithPermit =>
    rw [ArkSwapRouter02.removeLiquidityWithPermit, bind_eq_ok] at h
    obtain ⟨w₂, hp, h⟩ := h
    exact ⟨0, 0, 0, removeLiquidity_closed hs (permitShares_books hb hp).1 hd h, .inl rfl⟩
  case removeLiquidityETHWithPermit =>
    rw [ArkSwapRouter02.removeLiquidityETHWithPermit, bind_eq_ok] at h
    obtain ⟨w₂, hp, h⟩ := h
    obtain ⟨hb, hsame⟩ := permitShares_books hb hp
    obtain ⟨v, hc⟩ :=
      removeLiquidityETH_closed hs hb ((ht [] _ _ rfl).of_samePairs hsame) hd hdw hpass h
    exact ⟨0, 0, v, hc, .inl rfl⟩
  case removeLiquidityETHSupportingFeeOnTransferTokens =>
    obtain ⟨v, hc⟩ := removeLiquidityETHSupporting_closed hs hb (ht [] _ _ rfl) hd hdw hpass h
    exact ⟨0, 0, v, hc, .inl rfl⟩
  case removeLiquidityETHWithPermitSupportingFeeOnTransferTokens =>
    rw [ArkSwapRouter02.removeLiquidityETHWithPermitSupportingFeeOnTransferTokens,
      bind_eq_ok] at h
    obtain ⟨w₂, hp, h⟩ := h
    obtain ⟨hb, hsame⟩ := permitShares_books hb hp
    obtain ⟨v, hc⟩ := removeLiquidityETHSupporting_closed hs hb
      ((ht [] _ _ rfl).of_samePairs hsame) hd hdw hpass h
    exact ⟨0, 0, v, hc, .inl rfl⟩
  case swapExactTokensForTokens =>
    exact ⟨0, 0, 0, swapExactTokensForTokens_closed hs he hd h, .inl rfl⟩
  case swapTokensForExactTokens =>
    exact ⟨0, 0, 0, swapTokensForExactTokens_closed hs he hd h, .inl rfl⟩
  case swapExactETHForTokens =>
    exact ⟨_, 0, 0, swapExactETHForTokens_closed hs he hd h, .inr rfl⟩
  case swapTokensForExactETH =>
    obtain ⟨v, hc⟩ := swapTokensForExactETH_closed hs he hd hdw hpass ht h
    exact ⟨0, 0, v, hc, .inl rfl⟩
  case swapExactTokensForETH =>
    obtain ⟨v, hc⟩ := swapExactTokensForETH_closed hs he hd hdw hpass ht h
    exact ⟨0, 0, v, hc, .inl rfl⟩
  case swapETHForExactTokens =>
    obtain ⟨v, hc⟩ := swapETHForExactTokens_closed hs he hd h
    exact ⟨v, _, 0, hc, .inr rfl⟩
  case swapExactTokensForTokensSupportingFeeOnTransferTokens =>
    exact ⟨0, 0, 0, swapExactTokensForTokensSupporting_closed hs he hd h, .inl rfl⟩
  case swapExactETHForTokensSupportingFeeOnTransferTokens =>
    exact ⟨_, 0, 0, swapExactETHForTokensSupporting_closed hs he hd h, .inr rfl⟩
  case swapExactTokensForETHSupportingFeeOnTransferTokens =>
    obtain ⟨v, hc⟩ := swapExactTokensForETHSupporting_closed hs he hd hdw hpass ht h
    exact ⟨0, 0, v, hc, .inl rfl⟩

def wrappedToken : ArkSwapERC20 :=
  (issued (issued (issued .initial (pool hashEnv 3 5) 80000) 7 5000) 9 10).approve 7 2 9000

def wrappedMarket : World where
  timestamp := 0
  token _ := wrappedToken
  pair a := if a = pool hashEnv 3 5 then some (tradedPair 3 5) else none
  factory := { feeTo := 0, feeToSetter := 7, getPair := fun _ _ => 0, allPairs := [] }
  native a := if a = 7 then 4000 else if a = 3 then 85000 else 0
  logs := []

theorem wrappedPool_ne : hashEnv.router ≠ pool hashEnv 3 5 := by decide +kernel

theorem wrappedMarket_setting : Setting hashEnv wrappedMarket 7 where
  router_ne := by decide
  WETH_ne := by decide
  exact_WETH _ _ _ := rfl
  bare := by simp only [wrappedMarket, if_neg wrappedPool_ne]
  feeTo_ne := by decide
  sender_ne := by decide
  sender_ne_WETH := by decide
  passive w w' h := by
    obtain rfl : w = w' := Except.ok.inj h
    exact ⟨rfl, rfl, rfl, fun _ => rfl⟩

theorem wrappedMarket_empty : Empty hashEnv wrappedMarket := by
  have hseven : hashEnv.router ≠ 7 := by decide
  have hnine : hashEnv.router ≠ 9 := by decide
  refine ⟨rfl, fun t => ?_⟩
  simp only [World.balanceOf, wrappedMarket, wrappedToken, ArkSwapERC20.approve, issued_balanceOf,
    Ledger.credit_of_ne _ _ hnine, Ledger.credit_of_ne _ _ hseven,
    Ledger.credit_of_ne _ _ wrappedPool_ne]
  rfl

theorem wrappedMarket_closed :
    ∃ w', exec hashEnv wrappedMarket 7 (swapETHForExactTokens 2000 700 [3, 5] 9 0) = .ok w' ∧
      ∃ wrapped refunded unwrapped,
        Closed hashEnv 7 9 wrappedMarket w' 2000 wrapped refunded unwrapped ∧
          (2000 = 0 ∨ unwrapped = 0) := by
  obtain ⟨w', h⟩ := exists_ok (x := exec hashEnv wrappedMarket 7
    (swapETHForExactTokens 2000 700 [3, 5] 9 0)) (by decide +kernel)
  refine ⟨w', h, exec_closed h wrappedMarket_setting wrappedMarket_empty (by decide)
    (by decide) (fun w w' hr => ?_) (fun pre a b hpath => ?_)⟩
  · obtain rfl : w = w' := Except.ok.inj hr
    exact ⟨rfl, rfl, rfl, fun _ => rfl⟩
  · cases pre <;> cases hpath

def feeMarket : World :=
  { market with
    token := fun a => if a = pool hashEnv 4 5 then issued .initial 7 10000 else tradedToken
    pair := fun a => if a = pool hashEnv 4 5 then some { tradedPair 4 5 with kLast := 10 ^ 9 }
      else none
    factory := { feeTo := 2, feeToSetter := 7, getPair := fun _ _ => pool hashEnv 4 5,
                 allPairs := [pool hashEnv 4 5] } }

def givingEnv : Env :=
  { hashEnv with receive := fun a w => if a = 9 then w.transfer hashEnv 5 9 2 1 else .ok w }

/-- The router keeps the protocol's fee when it is the fee recipient, and
what the recipient of native KASH sends it in return. -/
theorem router_keeps_some :
    (Empty hashEnv feeMarket ∧ ∃ w', exec hashEnv feeMarket 7
      (addLiquidity 4 5 1000 1600 0 0 9 0) = .ok w' ∧ ¬ Empty hashEnv w') ∧
    Empty givingEnv wrappedMarket ∧ ∃ w', exec givingEnv wrappedMarket 7
      (swapExactTokensForETH 1000 0 [5, 3] 9 0) = .ok w' ∧ ¬ Empty givingEnv w' := by
  refine ⟨⟨⟨rfl, fun t => ?_⟩, ?_⟩, ⟨rfl, fun _ => ?_⟩, ?_⟩
  · by_cases ht : t = pool hashEnv 4 5
    · subst ht
      decide +kernel
    · have htok : feeMarket.token t = tradedToken := if_neg ht
      rw [World.balanceOf, htok]
      decide +kernel
  · obtain ⟨w', h⟩ := exists_ok (x := exec hashEnv feeMarket 7
      (addLiquidity 4 5 1000 1600 0 0 9 0)) (by decide +kernel)
    refine ⟨w', h, fun he => ?_⟩
    have hkept : (exec hashEnv feeMarket 7 (addLiquidity 4 5 1000 1600 0 0 9 0)).toOption.map
        (fun w => w.balanceOf (pool hashEnv 4 5) 2) = some 909 := by decide +kernel
    rw [h] at hkept
    have hzero := he.2 (pool hashEnv 4 5)
    exact absurd (hzero.symm.trans (Option.some.inj hkept)) (by decide)
  · exact (by decide +kernel : wrappedToken.balanceOf hashEnv.router = 0)
  · obtain ⟨w', h⟩ := exists_ok (x := exec givingEnv wrappedMarket 7
      (swapExactTokensForETH 1000 0 [5, 3] 9 0)) (by decide +kernel)
    refine ⟨w', h, fun he => ?_⟩
    have hkept : (exec givingEnv wrappedMarket 7
        (swapExactTokensForETH 1000 0 [5, 3] 9 0)).toOption.map
        (fun w => w.balanceOf 5 2) = some 1 := by decide +kernel
    rw [h] at hkept
    have hzero := he.2 5
    exact absurd (hzero.symm.trans (Option.some.inj hkept)) (by decide)

end RouterCall

end ArkSwap
