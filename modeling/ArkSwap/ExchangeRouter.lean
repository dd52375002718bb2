import ArkSwap.Exchange

/-! Every external function of the router does what calls of accounts do: it only makes
calls of its own to pairs, tokens, wrapped KASH and the factory. -/

namespace ArkSwap

open Checked ArkSwapPair ArkSwapLibrary ArkSwapRouter02 TransferHelper

variable {env : Env} {fees : Prop} {absent : Set Address} {w w' : World} {sender dst a b token : Address}
  {value deadline : Nat} {path : List Address}

/-- The router as one of the accounts. -/
def Premises.router (hs : Premises env fees absent) : Account env absent :=
  ⟨env.router, hs.router_ne, hs.router_ne_WETH, hs.router_free, hs.router_present⟩

section Steps

variable (hs : Premises env fees absent)

include hs

theorem safeTransferFrom_reach
    (h : TransferHelper.safeTransferFrom env w token sender dst value = .ok w') :
    Reach env fees absent w w' := .transferFrom hs.router (orFail_eq_ok.mp h)

theorem safeTransfer_reach (h : TransferHelper.safeTransfer env w token dst value = .ok w') :
    Reach env fees absent w w' := .transfer hs.router (orFail_eq_ok.mp h)

theorem withdraw_reach (h : WKASH.withdraw env w value = .ok w') : Reach env fees absent w w' :=
  .unwrap hs.router (WKASH.withdraw_eq_unwrap env w value ▸ h)

theorem safeTransferETH_reach (h : safeTransferETH env w dst value = .ok w') :
    Reach env fees absent w w' := by
  simp only [safeTransferETH, orFail_eq_ok, bind_eq_ok, require_eq_ok, ite_eq_ok, reduceCtorEq,
    and_false, false_or] at h
  obtain ⟨-, hv, ⟨-, h⟩ | ⟨-, -, h⟩⟩ := h
  · exact .deposit hs.router h
  · exact (Reach.send hs.router hv).trans (hs.receive dst _ _ h)

theorem refund_reach {amount : Nat} (h : refund env w sender value amount = .ok w') :
    Reach env fees absent w w' := by
  rw [refund, ite_eq_ok] at h
  rcases h with ⟨-, h⟩ | ⟨-, h⟩
  · exact safeTransferETH_reach hs h
  · obtain rfl := Except.ok.inj h
    exact .refl w

theorem unwrapTo_reach (h : unwrapTo env w dst value = .ok w') : Reach env fees absent w w' := by
  rw [unwrapTo, bind_eq_ok] at h
  obtain ⟨w₁, hd, h⟩ := h
  exact (withdraw_reach hs hd).trans (safeTransferETH_reach hs h)

theorem payFirst_reach (h : payFirst env w sender path value = .ok w') : Reach env fees absent w w' := by
  obtain ⟨_, _, _, -, h⟩ := payFirst_ok h
  exact safeTransferFrom_reach hs h

theorem wrapFirst_reach (h : wrapFirst env w path value = .ok w') : Reach env fees absent w w' := by
  obtain ⟨_, _, _, w₁, -, hd, h⟩ := wrapFirst_ok h
  exact (Reach.deposit hs.router hd).trans (.transfer hs.router h)

end Steps

/-- What the function does with the KASH that came along, it does after the caller sent it. -/
theorem payable_reach {α : Type} {r : α × World} {body : World → Except String (α × World)}
    {sender : Account env absent} (h : payable env w sender value body = .ok r)
    (hbody : ∀ u, body u = .ok r → Reach env fees absent u r.2) : Reach env fees absent w r.2 := by
  simp only [payable, bind_eq_ok, require_eq_ok] at h
  obtain ⟨-, hv, h⟩ := h
  exact (Reach.send sender hv).trans (hbody _ h)

theorem withPair_reach (h : withPair env w a b = .ok w') : Reach env fees absent w w' := by
  rw [withPair, ite_eq_ok] at h
  rcases h with ⟨-, h⟩ | ⟨-, h⟩
  · simp only [bind_eq_ok, pure_eq_ok, Except.ok.injEq] at h
    obtain ⟨⟨pair, w₁⟩, hcreate, rfl⟩ := h
    exact .createPair hcreate
  · obtain rfl := Except.ok.inj h
    exact .refl w

theorem addLiquidityAmounts_reach {desA desB minA minB : Nat} {amounts : Nat × Nat}
    (h : addLiquidityAmounts env w a b desA desB minA minB = .ok (amounts, w')) :
    Reach env fees absent w w' := by
  simp only [addLiquidityAmounts, bind_eq_ok, ite_eq_ok, pure_eq_ok, Except.ok.injEq,
    Prod.mk.injEq] at h
  obtain ⟨w₁, hpair, _, -, h⟩ := h
  suffices hw : w₁ = w' from hw ▸ withPair_reach hpair
  rcases h with ⟨-, -, hw⟩ | ⟨-, _, -, ⟨-, _, -, -, hw⟩ | ⟨-, _, -, _, -, _, -, -, hw⟩⟩ <;> exact hw

theorem permitShares_reach {liquidity : Nat} {sig : Permit} (hsender : sender ∉ absent)
    (h : permitShares env w sender a b liquidity deadline sig = .ok w') : Reach env fees absent w w' := by
  simp only [permitShares, bind_eq_ok, pure_eq_ok, Except.ok.injEq] at h
  obtain ⟨pair, -, _, -, lp, hlp, rfl⟩ := h
  exact .permit hsender hlp

/-- A swap without a callback. -/
theorem trade_reach {hop : Address} (h : trade env w a b value hop = .ok ((), w')) :
    Reach env fees absent w w' :=
  .swap (fun _ hdata => by cases hdata) h

theorem Hops.reach {ys : List Nat} (h : Hops env dst w path ys w') : Reach env fees absent w w' := by
  induction h with
  | done w path hlen => exact .refl w
  | hop hne hhop htrade hrest ih => exact (trade_reach htrade).trans ih

theorem swapAmounts_reach {amounts : List Nat} (hlen : amounts.length = path.length)
    (h : swapAmounts env dst w amounts path = .ok w') : Reach env fees absent w w' :=
  (swapAmounts_hops hlen h).reach

theorem swapSupporting_reach (h : swapSupportingFeeOnTransferTokens env dst w path = .ok w') :
    Reach env fees absent w w' := by
  obtain ⟨ys, hh⟩ := swapSupporting_hops h
  exact hh.reach

theorem swapMeasured_reach {amountOutMin : Nat}
    (h : swapMeasured env w path dst amountOutMin = .ok w') : Reach env fees absent w w' := by
  simp only [swapMeasured, bind_eq_ok, pure_eq_ok, Except.ok.injEq] at h
  obtain ⟨_, -, w₁, hh, _, -, _, -, rfl⟩ := h
  exact swapSupporting_reach hh

section Liquidity

variable (hs : Premises env fees absent)

include hs

/-- The shares are moved by the pair's own ledger, as by any other. -/
theorem sharesToPair_reach {pair : Address} {lp : ArkSwapERC20} (hne : sender ≠ env.router)
    (h : (w.token pair).transferFrom env.router sender pair value = .ok lp) :
    Reach env fees absent w (w.setToken pair lp) := by
  suffices hmoved : w.transferFrom env pair hs.router sender pair value = .ok (w.setToken pair lp) from
    .transferFrom hs.router hmoved
  rw [ArkSwapERC20.transferFrom, bind_eq_ok] at h
  obtain ⟨t, hspend, hmove⟩ := h
  rw [World.transferFrom, World.spendAllowance, if_neg fun hw => hne hw.2]
  obtain ⟨hle, hlt, rfl⟩ := ArkSwapERC20.transfer_eq_ok.mp hmove
  simp only [Premises.router, hspend, ok_bind]
  rw [World.transfer_eq_ok (hs.standard pair)]
  refine ⟨by rwa [World.balanceOf_setToken], by rwa [World.setToken_token], ?_⟩
  rw [World.moved, World.setToken_token, World.setToken_setToken]

theorem removeLiquidity_reach {liquidity minA minB : Nat} {amounts : Nat × Nat}
    (hne : sender ≠ env.router)
    (h : removeLiquidity env w sender a b liquidity minA minB dst deadline = .ok (amounts, w')) :
    Reach env fees absent w w' := by
  simp only [removeLiquidity, bind_eq_ok, pure_eq_ok, Except.ok.injEq, Prod.mk.injEq] at h
  obtain ⟨-, -, pair, -, _, -, lp, hlp, ⟨_, w₁⟩, hburn, _, -, -, -, -, -, -, rfl⟩ := h
  exact (sharesToPair_reach hs hne hlp).trans (.burn hburn)

theorem removeLiquidityETH_reach {liquidity minToken minETH : Nat} {amounts : Nat × Nat}
    (hne : sender ≠ env.router)
    (h : removeLiquidityETH env w sender token liquidity minToken minETH dst deadline =
      .ok (amounts, w')) : Reach env fees absent w w' := by
  simp only [removeLiquidityETH, bind_eq_ok, pure_eq_ok, Except.ok.injEq, Prod.mk.injEq] at h
  obtain ⟨-, -, ⟨_, w₁⟩, hremove, w₂, hpay, w₃, hwithdraw, w₄, hsend, -, rfl⟩ := h
  exact ((removeLiquidity_reach hs hne hremove).trans (safeTransfer_reach hs hpay)).trans
    ((withdraw_reach hs hwithdraw).trans (safeTransferETH_reach hs hsend))

theorem removeLiquidityETHSupporting_reach {liquidity minToken minETH amountETH : Nat}
    (hne : sender ≠ env.router)
    (h : removeLiquidityETHSupportingFeeOnTransferTokens env w sender token liquidity minToken
      minETH dst deadline = .ok (amountETH, w')) : Reach env fees absent w w' := by
  simp only [removeLiquidityETHSupportingFeeOnTransferTokens, bind_eq_ok, pure_eq_ok,
    Except.ok.injEq, Prod.mk.injEq] at h
  obtain ⟨-, -, ⟨_, w₁⟩, hremove, w₂, hpay, w₃, hwithdraw, w₄, hsend, -, rfl⟩ := h
  exact ((removeLiquidity_reach hs hne hremove).trans (safeTransfer_reach hs hpay)).trans
    ((withdraw_reach hs hwithdraw).trans (safeTransferETH_reach hs hsend))

theorem addLiquidity_reach {desA desB minA minB : Nat} {amounts : Nat × Nat × Nat}
    (h : addLiquidity env w sender a b desA desB minA minB dst deadline = .ok (amounts, w')) :
    Reach env fees absent w w' := by
  simp only [addLiquidity, bind_eq_ok, pure_eq_ok, Except.ok.injEq, Prod.mk.injEq] at h
  obtain ⟨-, -, ⟨_, w₁⟩, hamounts, pair, -, w₂, hpayA, w₃, hpayB, ⟨_, w₄⟩, hmint, -, rfl⟩ := h
  exact ((addLiquidityAmounts_reach hamounts).trans (safeTransferFrom_reach hs hpayA)).trans
    ((safeTransferFrom_reach hs hpayB).trans (.mint hmint))

theorem addLiquidityETH_reach {desired minToken minETH : Nat} {r : (Nat × Nat × Nat) × World}
    {sender : Account env absent}
    (h : addLiquidityETH env w sender value token desired minToken minETH dst deadline = .ok r) :
    Reach env fees absent w r.2 := by
  refine payable_reach h fun u h => ?_
  simp only [bind_eq_ok, pure_eq_ok, Except.ok.injEq] at h
  obtain ⟨-, -, ⟨_, w₁⟩, hamounts, pair, -, w₂, hpay, w₃, hdeposit, w₄, hmove, ⟨_, w₅⟩, hmint, w₆,
    hrefund, rfl⟩ := h
  have hpaid := (addLiquidityAmounts_reach hamounts).trans (safeTransferFrom_reach hs hpay)
  have hwrapped : Reach env fees absent w₂ w₄ :=
    (Reach.deposit hs.router hdeposit).trans (.transfer hs.router hmove)
  exact (hpaid.trans hwrapped).trans ((Reach.mint hmint).trans (refund_reach hs hrefund))

end Liquidity

section Swaps

variable {amounts : List Nat} {amountIn amountOut amountOutMin amountInMax : Nat}

variable (hs : Premises env fees absent)

include hs

theorem swapExactTokensForTokens_reach
    (h : swapExactTokensForTokens env w sender amountIn amountOutMin path dst deadline =
      .ok (amounts, w')) : Reach env fees absent w w' := by
  simp only [swapExactTokensForTokens, bind_eq_ok, pure_eq_ok, Except.ok.injEq,
    Prod.mk.injEq] at h
  obtain ⟨-, -, amounts, hq, -, -, -, -, x, -, w₁, hpay, w₂, hrun, rfl, rfl⟩ := h
  exact (payFirst_reach hs hpay).trans (swapAmounts_reach (getAmountsOut_shape hq).1 hrun)

theorem swapTokensForExactTokens_reach
    (h : swapTokensForExactTokens env w sender amountOut amountInMax path dst deadline =
      .ok (amounts, w')) : Reach env fees absent w w' := by
  simp only [swapTokensForExactTokens, bind_eq_ok, pure_eq_ok, Except.ok.injEq,
    Prod.mk.injEq] at h
  obtain ⟨-, -, amounts, hq, -, -, -, -, x, -, w₁, hpay, w₂, hrun, rfl, rfl⟩ := h
  exact (payFirst_reach hs hpay).trans (swapAmounts_reach (getAmountsIn_length hq) hrun)

theorem swapExactTokensForETH_reach
    (h : swapExactTokensForETH env w sender amountIn amountOutMin path dst deadline =
      .ok (amounts, w')) : Reach env fees absent w w' := by
  simp only [swapExactTokensForETH, bind_eq_ok, pure_eq_ok, Except.ok.injEq, Prod.mk.injEq] at h
  obtain ⟨-, -, _, -, -, -, amounts, hq, -, -, -, -, x, -, w₁, hpay, w₂, hrun, z, -, w₃, hout, rfl,
    rfl⟩ := h
  have htraded : Reach env fees absent w₁ w₂ := swapAmounts_reach (getAmountsOut_shape hq).1 hrun
  exact ((payFirst_reach hs hpay).trans htraded).trans (unwrapTo_reach hs hout)

theorem swapTokensForExactETH_reach
    (h : swapTokensForExactETH env w sender amountOut amountInMax path dst deadline =
      .ok (amounts, w')) : Reach env fees absent w w' := by
  simp only [swapTokensForExactETH, bind_eq_ok, pure_eq_ok, Except.ok.injEq, Prod.mk.injEq] at h
  obtain ⟨-, -, _, -, -, -, amounts, hq, -, -, -, -, x, -, w₁, hpay, w₂, hrun, z, -, w₃, hout, rfl,
    rfl⟩ := h
  have htraded : Reach env fees absent w₁ w₂ := swapAmounts_reach (getAmountsIn_length hq) hrun
  exact ((payFirst_reach hs hpay).trans htraded).trans (unwrapTo_reach hs hout)

theorem swapExactTokensForTokensSupporting_reach
    (h : swapExactTokensForTokensSupportingFeeOnTransferTokens env w sender amountIn amountOutMin
      path dst deadline = .ok ((), w')) : Reach env fees absent w w' := by
  simp only [swapExactTokensForTokensSupportingFeeOnTransferTokens, bind_eq_ok, pure_eq_ok,
    Except.ok.injEq, Prod.mk.injEq, true_and] at h
  obtain ⟨-, -, w₁, hpay, w₂, hrun, rfl⟩ := h
  exact (payFirst_reach hs hpay).trans (swapMeasured_reach hrun)

theorem swapExactTokensForETHSupporting_reach
    (h : swapExactTokensForETHSupportingFeeOnTransferTokens env w sender amountIn amountOutMin
      path dst deadline = .ok ((), w')) : Reach env fees absent w w' := by
  simp only [swapExactTokensForETHSupportingFeeOnTransferTokens, bind_eq_ok, pure_eq_ok,
    Except.ok.injEq, Prod.mk.injEq, true_and] at h
  obtain ⟨-, -, _, -, -, -, w₁, hpay, w₂, hrun, -, -, w₃, hout, rfl⟩ := h
  exact ((payFirst_reach hs hpay).trans (swapSupporting_reach hrun)).trans
    (unwrapTo_reach hs hout)

variable {sender : Account env absent}

theorem swapExactETHForTokens_reach {r : List Nat × World}
    (h : swapExactETHForTokens env w sender value amountOutMin path dst deadline = .ok r) :
    Reach env fees absent w r.2 := by
  refine payable_reach h fun u h => ?_
  simp only [bind_eq_ok, pure_eq_ok, Except.ok.injEq] at h
  obtain ⟨-, -, -, -, -, -, amounts, hq, -, -, -, -, x, -, w₁, hpay, w₂, hrun, rfl⟩ := h
  exact (wrapFirst_reach hs hpay).trans (swapAmounts_reach (getAmountsOut_shape hq).1 hrun)

theorem swapETHForExactTokens_reach {r : List Nat × World}
    (h : swapETHForExactTokens env w sender value amountOut path dst deadline = .ok r) :
    Reach env fees absent w r.2 := by
  refine payable_reach h fun u h => ?_
  simp only [bind_eq_ok, pure_eq_ok, Except.ok.injEq] at h
  obtain ⟨-, -, -, -, -, -, amounts, hq, x, -, -, -, w₁, hpay, w₂, hrun, w₃, hrefund, rfl⟩ := h
  have htraded : Reach env fees absent w₁ w₂ := swapAmounts_reach (getAmountsIn_length hq) hrun
  exact ((wrapFirst_reach hs hpay).trans htraded).trans (refund_reach hs hrefund)

theorem swapExactETHForTokensSupporting_reach {r : Unit × World}
    (h : swapExactETHForTokensSupportingFeeOnTransferTokens env w sender value amountOutMin path
      dst deadline = .ok r) : Reach env fees absent w r.2 := by
  refine payable_reach h fun u h => ?_
  simp only [bind_eq_ok, pure_eq_ok, Except.ok.injEq] at h
  obtain ⟨-, -, -, -, -, -, w₁, hpay, w₂, hrun, rfl⟩ := h
  exact (wrapFirst_reach hs hpay).trans (swapMeasured_reach hrun)

end Swaps

/-- The router's caller is any account but the router itself. -/
theorem RouterCall.exec_reach (hs : Premises env fees absent) {sender : Account env absent}
    (hne : sender.val ≠ env.router) {c : RouterCall} (h : c.exec env w sender = .ok w') :
    Reach env fees absent w w' := by
  cases c <;> simp only [exec, bind_eq_ok, pure_eq_ok, Except.ok.injEq] at h <;>
    obtain ⟨⟨r, w₁⟩, h, rfl⟩ := h
  case addLiquidity => exact addLiquidity_reach hs h
  case addLiquidityETH => exact addLiquidityETH_reach hs h
  case removeLiquidity => exact removeLiquidity_reach hs hne h
  case removeLiquidityETH => exact removeLiquidityETH_reach hs hne h
  case removeLiquidityWithPermit =>
    rw [ArkSwapRouter02.removeLiquidityWithPermit, bind_eq_ok] at h
    obtain ⟨w₂, hpermit, h⟩ := h
    exact (permitShares_reach sender.2.2.2.2 hpermit).trans (removeLiquidity_reach hs hne h)
  case removeLiquidityETHWithPermit =>
    rw [ArkSwapRouter02.removeLiquidityETHWithPermit, bind_eq_ok] at h
    obtain ⟨w₂, hpermit, h⟩ := h
    exact (permitShares_reach sender.2.2.2.2 hpermit).trans (removeLiquidityETH_reach hs hne h)
  case removeLiquidityETHSupportingFeeOnTransferTokens =>
    exact removeLiquidityETHSupporting_reach hs hne h
  case removeLiquidityETHWithPermitSupportingFeeOnTransferTokens =>
    rw [ArkSwapRouter02.removeLiquidityETHWithPermitSupportingFeeOnTransferTokens,
      bind_eq_ok] at h
    obtain ⟨w₂, hpermit, h⟩ := h
    exact (permitShares_reach sender.2.2.2.2 hpermit).trans (removeLiquidityETHSupporting_reach hs hne h)
  case swapExactTokensForTokens => exact swapExactTokensForTokens_reach hs h
  case swapTokensForExactTokens => exact swapTokensForExactTokens_reach hs h
  case swapExactETHForTokens => exact swapExactETHForTokens_reach hs h
  case swapTokensForExactETH => exact swapTokensForExactETH_reach hs h
  case swapExactTokensForETH => exact swapExactTokensForETH_reach hs h
  case swapETHForExactTokens => exact swapETHForExactTokens_reach hs h
  case swapExactTokensForTokensSupportingFeeOnTransferTokens =>
    exact swapExactTokensForTokensSupporting_reach hs h
  case swapExactETHForTokensSupportingFeeOnTransferTokens =>
    exact swapExactETHForTokensSupporting_reach hs h
  case swapExactTokensForETHSupportingFeeOnTransferTokens =>
    exact swapExactTokensForETHSupporting_reach hs h

end ArkSwap
