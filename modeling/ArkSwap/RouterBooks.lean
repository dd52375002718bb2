import ArkSwap.RouterFlow

/-! The router's books during a call: the native KASH and the tokens it
holds, what the caller has paid and how much KASH was wrapped. -/

namespace ArkSwap

open Checked ArkSwapPair ArkSwapLibrary ArkSwapRouter02 TransferHelper

/-- The router has no native KASH and none of any token. -/
def Empty (env : Env) (w : World) : Prop :=
  w.native env.router = 0 ∧ ∀ t, w.balanceOf t env.router = 0

/-- Code that `a` runs when native KASH reaches it moves neither the
router's assets nor the native KASH of the caller and of wrapped KASH. -/
def Passive (env : Env) (sender a : Address) : Prop :=
  ∀ w w', env.receive a w = .ok w' → w'.native env.router = w.native env.router ∧
    w'.native sender = w.native sender ∧ w'.native env.WETH = w.native env.WETH ∧
    ∀ t, w'.balanceOf t env.router = w.balanceOf t env.router

/-- The router as it is deployed: no pair, not wrapped KASH, not the
protocol's fee recipient; wrapped KASH moves exactly what it is asked to. -/
structure Setting (env : Env) (w : World) (sender : Address) : Prop where
  router_ne : env.router ≠ 0
  WETH_ne : env.WETH ≠ env.router
  exact_WETH : Standard env env.WETH
  bare : w.pair env.router = none
  feeTo_ne : env.router ≠ w.factory.feeTo
  sender_ne : sender ≠ env.router
  sender_ne_WETH : sender ≠ env.WETH
  passive : Passive env sender sender

/-- The state of a call that began in `w₀`. -/
structure Books (env : Env) (sender : Address) (w₀ w : World) (cash : Nat)
    (held : Address → Nat) (paid wrapped unwrapped : Nat) : Prop where
  cash : w.native env.router = cash
  held : ∀ t, w.balanceOf t env.router = held t
  paid : w.native sender + paid = w₀.native sender
  wrapped : w.native env.WETH + unwrapped = w₀.native env.WETH + wrapped
  bare : w.pair env.router = none
  feeTo_ne : env.router ≠ w.factory.feeTo

/-- The router is empty again and the caller's KASH is accounted for: what
was sent along was wrapped or went back. -/
structure Closed (env : Env) (sender dst : Address) (w₀ w : World)
    (value wrapped refunded unwrapped : Nat) : Prop where
  empty : Empty env w
  used : wrapped + refunded = value
  spent : w.native sender + value =
    w₀.native sender + refunded + if dst = sender then unwrapped else 0
  wrapped : w.native env.WETH + unwrapped = w₀.native env.WETH + wrapped

namespace Books

variable {env : Env} {sender dst : Address} {w₀ w w' : World} {cash v : Nat}
  {held held' : Address → Nat} {paid wrapped unwrapped : Nat}

theorem start (hs : Setting env w sender) (h : Empty env w) :
    Books env sender w w 0 (fun _ => 0) 0 0 0 :=
  ⟨h.1, h.2, rfl, rfl, hs.bare, hs.feeTo_ne⟩

theorem congr (h : Books env sender w₀ w cash held paid wrapped unwrapped)
    (he : ∀ t, held t = held' t) : Books env sender w₀ w cash held' paid wrapped unwrapped :=
  { h with held := fun t => (h.held t).trans (he t) }

theorem flow {got : Address → Nat} (h : Books env sender w₀ w cash held paid wrapped unwrapped)
    (hf : Flow env.router w w' got) :
    Books env sender w₀ w' cash (fun t => held t + got t) paid wrapped unwrapped where
  cash := by rw [hf.native, h.cash]
  held t := by rw [hf.balance, h.held]
  paid := by rw [hf.native, h.paid]
  wrapped := by rw [hf.native, h.wrapped]
  bare := hf.pairs.none h.bare
  feeTo_ne := by rw [hf.feeTo]; exact h.feeTo_ne

theorem receive (hs : Setting env w sender) (h : Empty env w) (hv : v ≤ w.native sender) :
    Books env sender w (w.moveNative sender env.router v) v (fun _ => 0) v 0 0 where
  cash := (Ledger.move_dst v hs.sender_ne.symm).trans (by rw [h.1, Nat.zero_add])
  held := h.2
  paid := by
    have hsrc := Ledger.move_src (f := w.native) v hs.sender_ne
    have hn : (w.moveNative sender env.router v).native sender = w.native sender - v := hsrc
    omega
  wrapped := by
    have hn : (w.moveNative sender env.router v).native env.WETH = w.native env.WETH :=
      Ledger.move_of_ne v hs.sender_ne_WETH.symm hs.WETH_ne
    omega
  bare := hs.bare
  feeTo_ne := hs.feeTo_ne

theorem deposit (hs : Setting env w₀ sender)
    (h : Books env sender w₀ w cash held paid wrapped unwrapped)
    (hd : WKASH.deposit env w env.router v = .ok w') :
    v ≤ cash ∧ Books env sender w₀ w' (cash - v)
      (fun t => held t + if t = env.WETH then v else 0) paid (wrapped + v) unwrapped := by
  simp only [WKASH.deposit, bind_eq_ok, require_eq_ok, pure_eq_ok, Except.ok.injEq] at hd
  obtain ⟨-, hle, lp, hm, rfl⟩ := hd
  obtain rfl := mint_ledger hm
  rw [h.cash] at hle
  have hsrc : Ledger.move w.native env.router env.WETH v env.router = cash - v :=
    (Ledger.move_src v hs.WETH_ne.symm).trans (by rw [h.cash])
  have hdst : Ledger.move w.native env.router env.WETH v env.WETH = w.native env.WETH + v :=
    Ledger.move_dst v hs.WETH_ne
  have hother : Ledger.move w.native env.router env.WETH v sender = w.native sender :=
    Ledger.move_of_ne v hs.sender_ne hs.sender_ne_WETH
  refine ⟨hle, hsrc, fun t => ?_, ?_, ?_, h.bare, h.feeTo_ne⟩
  · by_cases ht : t = env.WETH
    · subst ht
      rw [World.balanceOf_setToken, issued_balanceOf, Ledger.credit_self, if_pos rfl, ← h.held]
      rfl
    · rw [World.balanceOf_setToken_of_ne _ ht, if_neg ht]
      exact h.held t
  · exact (congrArg (· + paid) hother).trans h.paid
  · have hw := h.wrapped
    have hn : ((w.moveNative env.router env.WETH v).setToken env.WETH
      (issued (w.token env.WETH) env.router v)).native env.WETH = w.native env.WETH + v := hdst
    omega

theorem send {token : Address} (h : Books env sender w₀ w cash held paid wrapped unwrapped)
    (ht : w.transfer env token env.router dst v = .ok w') (hd : dst ≠ env.router) :
    v ≤ held token ∧ Books env sender w₀ w' cash
      (fun t => held t - if t = token then v else 0) paid wrapped unwrapped := by
  obtain ⟨hle, hpaid, hother, hn, hf, hp⟩ := transfer_src ht hd
  rw [h.held] at hle hpaid
  refine ⟨hle, by rw [hn, h.cash], fun t => ?_, by rw [hn, h.paid], by rw [hn, h.wrapped],
    by rw [hp, h.bare], by rw [hf]; exact h.feeTo_ne⟩
  by_cases htt : t = token
  · rw [htt, if_pos rfl, hpaid]
  · rw [hother t htt, h.held, if_neg htt, Nat.sub_zero]

theorem withdraw (hs : Setting env w₀ sender)
    (h : Books env sender w₀ w cash held paid wrapped unwrapped)
    (hd : WKASH.withdraw env w v = .ok w') :
    v ≤ held env.WETH ∧ Books env sender w₀ w' (cash + v)
      (fun t => held t - if t = env.WETH then v else 0) paid wrapped (unwrapped + v) := by
  simp only [WKASH.withdraw, bind_eq_ok, require_eq_ok, orFail_eq_ok, pure_eq_ok,
    Except.ok.injEq] at hd
  obtain ⟨t', hb, -, hle, rfl⟩ := hd
  obtain ⟨hheld, -, rfl⟩ := ArkSwapERC20.burn_eq_ok.mp hb
  have hbal := h.held env.WETH
  rw [World.balanceOf] at hbal
  have hsrc : Ledger.move w.native env.WETH env.router v env.WETH = w.native env.WETH - v :=
    Ledger.move_src v hs.WETH_ne
  have hdst : Ledger.move w.native env.WETH env.router v env.router = cash + v :=
    (Ledger.move_dst v hs.WETH_ne.symm).trans (by rw [h.cash])
  have hother : Ledger.move w.native env.WETH env.router v sender = w.native sender :=
    Ledger.move_of_ne v hs.sender_ne_WETH hs.sender_ne
  refine ⟨hbal ▸ hheld, hdst, fun t => ?_, (congrArg (· + paid) hother).trans h.paid, ?_, h.bare,
    h.feeTo_ne⟩
  · by_cases ht : t = env.WETH
    · subst ht
      rw [if_pos rfl, ← hbal]
      exact (World.balanceOf_setToken _ _ _ _).trans (Ledger.debit_self _ _ _)
    · rw [if_neg ht, Nat.sub_zero, ← h.held]
      exact World.balanceOf_setToken_of_ne _ ht
  · have hw := h.wrapped
    refine (congrArg (· + (unwrapped + v)) hsrc).trans ?_
    show w.native env.WETH - v + (unwrapped + v) = _
    omega

theorem payOut (hs : Setting env w₀ sender) (h : Books env sender w₀ w v held paid wrapped unwrapped)
    (he : ∀ t, held t = 0) (hd : safeTransferETH env w dst v = .ok w') (hdr : dst ≠ env.router)
    (hdw : dst ≠ env.WETH) (hpass : Passive env sender dst) :
    Empty env w' ∧ w'.native sender + paid = w₀.native sender + (if dst = sender then v else 0) ∧
      w'.native env.WETH + unwrapped = w₀.native env.WETH + wrapped := by
  rw [safeTransferETH, orFail_eq_ok, bind_eq_ok] at hd
  obtain ⟨-, -, hd⟩ := hd
  rw [if_neg hdw, if_neg hdr] at hd
  obtain ⟨hr, hsend, hweth, hbal⟩ := hpass _ _ hd
  have hsrc : Ledger.move w.native env.router dst v env.router = w.native env.router - v :=
    Ledger.move_src v hdr.symm
  have hother : Ledger.move w.native env.router dst v env.WETH = w.native env.WETH :=
    Ledger.move_of_ne v hs.WETH_ne hdw.symm
  have hwrapped := h.wrapped
  have hpaid := h.paid
  refine ⟨⟨?_, fun t => ?_⟩, ?_, ?_⟩
  · rw [hr]
    refine hsrc.trans ?_
    rw [h.cash, Nat.sub_self]
  · rw [hbal]
    exact (h.held t).trans (he t)
  · rw [hsend]
    by_cases hds : dst = sender
    · subst hds
      have hdst : (w.moveNative env.router dst v).native dst = w.native dst + v :=
        Ledger.move_dst v hdr
      rw [if_pos rfl]
      omega
    · have hkeep : (w.moveNative env.router dst v).native sender = w.native sender :=
        Ledger.move_of_ne v hs.sender_ne (Ne.symm hds)
      rw [if_neg hds]
      omega
  · rw [hweth]
    exact (congrArg (· + unwrapped) hother).trans hwrapped

end Books

end ArkSwap
