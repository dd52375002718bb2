import ArkSwap.RouterBooks

/-! Every call of the router leaves it empty, and takes of the caller's
native KASH what it wraps. -/

namespace ArkSwap

open Checked ArkSwapPair ArkSwapLibrary ArkSwapRouter02 TransferHelper

variable {env : Env} {sender dst : Address} {w₀ w w' : World} {path : List Address}
  {cash v paid wrapped unwrapped : Nat} {held : Address → Nat}

theorem createPair_books {a b pair : Address}
    (h : Books env sender w₀ w cash (fun _ => 0) paid wrapped unwrapped)
    (hc : ArkSwapFactory.createPair env w a b = .ok (pair, w')) :
    Books env sender w₀ w' cash (fun _ => 0) paid wrapped unwrapped := by
  rw [ArkSwapFactory.createPair, sorted_eq] at hc
  simp only [bind_eq_ok, require_eq_ok, pure_eq_ok, Except.ok.injEq, Prod.mk.injEq] at hc
  obtain ⟨-, -, -, -, -, -, -, ⟨-, -, -, hne, -⟩, rfl, rfl⟩ := hc
  refine ⟨h.cash, fun t => ?_, h.paid, h.wrapped, ?_, h.feeTo_ne⟩
  · by_cases ht : t = create2 env (pairSalt env (min a b) (max a b)) env.pairCodeHash
    · subst ht
      exact World.balanceOf_setToken _ _ _ _
    · exact (World.balanceOf_setToken_of_ne _ ht).trans (h.held t)
  · exact (World.setPair_pair_of_ne hne.symm).trans h.bare

theorem addLiquidityAmounts_books {a b : Address} {desA desB minA minB x y : Nat}
    (h : Books env sender w₀ w cash (fun _ => 0) paid wrapped unwrapped)
    (hc : addLiquidityAmounts env w a b desA desB minA minB = .ok ((x, y), w')) :
    Books env sender w₀ w' cash (fun _ => 0) paid wrapped unwrapped ∧
      ∃ p, w'.pair (pool env a b) = some p := by
  simp only [addLiquidityAmounts, bind_eq_ok] at hc
  obtain ⟨w₁, hcreate, ⟨rA, rB⟩, hres, hrest⟩ := hc
  have hbooks : Books env sender w₀ w₁ cash (fun _ => 0) paid wrapped unwrapped := by
    rw [withPair, ite_eq_ok] at hcreate
    rcases hcreate with ⟨-, hcreate⟩ | ⟨-, hcreate⟩
    · simp only [bind_eq_ok, pure_eq_ok, Except.ok.injEq] at hcreate
      obtain ⟨⟨pair, w₂⟩, hcreate, rfl⟩ := hcreate
      exact createPair_books h hcreate
    · rwa [← Except.ok.inj hcreate]
  obtain ⟨-, -, p, hp, -⟩ := getReserves_ok hres
  suffices hw : w' = w₁ by
    subst hw
    exact ⟨hbooks, p, hp⟩
  simp only [ite_eq_ok, bind_eq_ok, require_eq_ok, pure_eq_ok, Except.ok.injEq,
    Prod.mk.injEq] at hrest
  rcases hrest with ⟨-, -, rfl⟩ | ⟨-, _, -, ⟨-, -, -, -, rfl⟩ | ⟨-, _, -, -, -, -, -, -, rfl⟩⟩
  · rfl
  · rfl
  · rfl

section Liquidity

variable {a b token : Address} {desA desB minA minB deadline : Nat}

theorem safeTransferFrom_pair {q : Address}
    (ht : safeTransferFrom env w token sender q v = .ok w') : w'.pair = w.pair := by
  rw [safeTransferFrom, orFail_eq_ok, World.transferFrom, bind_eq_ok] at ht
  obtain ⟨t', -, ht⟩ := ht
  exact (transfer_pair ht).trans (World.setToken_pair _ _ _)

theorem safeTransferFrom_books {q : Address} {p : ArkSwapPair}
    (h : Books env sender w₀ w cash held paid wrapped unwrapped) (hs : Setting env w₀ sender)
    (hq : w.pair q = some p) (ht : safeTransferFrom env w token sender q v = .ok w') :
    Books env sender w₀ w' cash held paid wrapped unwrapped := by
  rw [safeTransferFrom, orFail_eq_ok] at ht
  have hne : q ≠ env.router := (ne_of_deployed h.bare hq).symm
  exact (h.flow (transferFrom_flow ht hs.sender_ne)).congr fun t => by
    rw [arrives_of_ne v hne, Nat.add_zero]

theorem mint_books {q : Address} {L : Nat}
    (h : Books env sender w₀ w cash held paid wrapped unwrapped) (hs : Setting env w₀ sender)
    (hd : dst ≠ env.router) (hm : ArkSwapPair.mint w q env.router dst = .ok (L, w')) :
    Books env sender w₀ w' cash held paid wrapped unwrapped :=
  (h.flow (mint_flow hm hs.router_ne hd.symm h.feeTo_ne)).congr fun _ => Nat.add_zero _

theorem Books.close (h : Books env sender w₀ w 0 held paid wrapped unwrapped)
    (he : ∀ t, held t = 0) : Empty env w :=
  ⟨h.cash, fun t => (h.held t).trans (he t)⟩

theorem addLiquidity_closed (hs : Setting env w sender) (he : Empty env w)
    (hd : dst ≠ env.router) {r : Nat × Nat × Nat}
    (h : addLiquidity env w sender a b desA desB minA minB dst deadline = .ok (r, w')) :
    Closed env sender dst w w' 0 0 0 0 := by
  simp only [addLiquidity, bind_eq_ok, pairFor_eq_ok, pure_eq_ok, Except.ok.injEq,
    Prod.mk.injEq] at h
  obtain ⟨-, -, ⟨⟨x, y⟩, w₁⟩, hx, _, ⟨-, -, rfl⟩, w₂, ht₁, w₃, ht₂, ⟨L, w₄⟩, hm, -, rfl⟩ := h
  obtain ⟨hb, p, hp⟩ := addLiquidityAmounts_books (Books.start hs he) hx
  have hb := safeTransferFrom_books hb hs hp ht₁
  have hb := safeTransferFrom_books hb hs (safeTransferFrom_pair ht₁ ▸ hp) ht₂
  have hb := mint_books hb hs hd hm
  exact ⟨hb.close fun _ => rfl, rfl, by simpa using hb.paid, by simpa using hb.wrapped⟩

theorem refund_closed {value : Nat} (hs : Setting env w₀ sender)
    (h : Books env sender w₀ w (value - v) held value v 0) (hv : v ≤ value)
    (he : ∀ t, held t = 0) (hr : refund env w sender value v = .ok w') :
    Closed env sender dst w₀ w' value v (value - v) 0 := by
  have hused := Nat.add_sub_cancel' hv
  rw [refund, ite_eq_ok] at hr
  rcases hr with ⟨-, hr⟩ | ⟨hle, hr⟩
  · obtain ⟨hempty, hspent, hwrapped⟩ :=
      h.payOut hs he hr hs.sender_ne hs.sender_ne_WETH hs.passive
    refine ⟨hempty, hused, ?_, hwrapped⟩
    rw [if_pos rfl] at hspent
    simpa using hspent
  · obtain rfl := Except.ok.inj hr
    have h0 : value - v = 0 := Nat.sub_eq_zero_of_le (not_lt.mp hle)
    rw [h0] at h
    refine ⟨h.close he, hused, ?_, h.wrapped⟩
    rw [h0]
    simpa using h.paid

theorem addLiquidityETH_closed {value : Nat} (hs : Setting env w sender) (he : Empty env w)
    (hd : dst ≠ env.router) {r : Nat × Nat × Nat}
    (h : addLiquidityETH env w sender value token desA minA minB dst deadline = .ok (r, w')) :
    ∃ wrapped, Closed env sender dst w w' value wrapped (value - wrapped) 0 := by
  simp only [addLiquidityETH, payable, bind_eq_ok, require_eq_ok, pairFor_eq_ok, pure_eq_ok,
    Except.ok.injEq, Prod.mk.injEq] at h
  obtain ⟨-, hv, -, -, ⟨⟨x, y⟩, w₁⟩, hx, _, ⟨-, -, rfl⟩, w₂, ht, w₃, hdep, w₄, hsend, ⟨L, w₅⟩, hm,
    w₆, href, -, rfl⟩ := h
  obtain ⟨hb, p, hp⟩ := addLiquidityAmounts_books (Books.receive hs he hv) hx
  have hb := safeTransferFrom_books hb hs hp ht
  have hpool : pool env token env.WETH ≠ env.router :=
    (ne_of_deployed hb.bare (safeTransferFrom_pair ht ▸ hp)).symm
  obtain ⟨hle, hb⟩ := hb.deposit hs hdep
  obtain ⟨-, hb⟩ := hb.send hsend hpool
  have hb := mint_books hb hs hd hm
  rw [Nat.zero_add] at hb
  exact ⟨y, refund_closed hs hb hle (fun t => by simp) href⟩

theorem removeLiquidity_books {liquidity x y : Nat} (hs : Setting env w₀ sender)
    (h : Books env sender w₀ w 0 (fun _ => 0) 0 0 0) (ht : dst = env.router → Trades env w a b)
    (hr : removeLiquidity env w sender a b liquidity minA minB dst deadline = .ok ((x, y), w')) :
    a ≠ b ∧ ∃ src, Books env sender w₀ w' 0 (fun t => arrives env env.router a src dst x t +
      arrives env env.router b src dst y t) 0 0 0 := by
  obtain ⟨hne, src, hflow⟩ := removeLiquidity_flow hr h.bare hs.sender_ne.symm h.feeTo_ne ht
  exact ⟨hne, src, (h.flow hflow).congr fun t => Nat.zero_add _⟩

theorem removeLiquidity_closed {liquidity : Nat} {r : Nat × Nat} (hs : Setting env w₀ sender)
    (h : Books env sender w₀ w 0 (fun _ => 0) 0 0 0) (hd : dst ≠ env.router)
    (hr : removeLiquidity env w sender a b liquidity minA minB dst deadline = .ok (r, w')) :
    Closed env sender dst w₀ w' 0 0 0 0 := by
  obtain ⟨-, src, hb⟩ := removeLiquidity_books hs h (fun he => (hd he).elim) hr
  refine ⟨hb.close fun t => ?_, rfl, by simpa using hb.paid, by simpa using hb.wrapped⟩
  rw [arrives_of_ne _ hd, arrives_of_ne _ hd]

theorem cashOut_closed {w₁ : World} (hs : Setting env w₀ sender)
    (h : Books env sender w₀ w 0 held 0 0 0) (he : ∀ t, held t = if t = env.WETH then v else 0)
    (hwd : WKASH.withdraw env w v = .ok w₁) (hpay : safeTransferETH env w₁ dst v = .ok w')
    (hd : dst ≠ env.router) (hdw : dst ≠ env.WETH) (hpass : Passive env sender dst) :
    Closed env sender dst w₀ w' 0 0 0 v := by
  obtain ⟨-, hb⟩ := h.withdraw hs hwd
  rw [Nat.zero_add] at hb
  obtain ⟨hempty, hspent, hwrapped⟩ :=
    hb.payOut hs (fun t => by rw [he, Nat.sub_self]) hpay hd hdw hpass
  exact ⟨hempty, rfl, by simpa using hspent, by simpa using hwrapped⟩

/-- The router's shares of a withdrawal from the pair with wrapped KASH. -/
theorem arrives_router {src : Address} {x y : Nat} (hs : Setting env w₀ sender) (t : Address) :
    arrives env env.router token src env.router x t +
      arrives env env.router env.WETH src env.router y t =
      (if t = token then x - env.burned token src env.router x else 0) +
        if t = env.WETH then y else 0 := by
  simp only [arrives, and_true, hs.exact_WETH _ _ _, Nat.sub_zero]

/-- What has been withdrawn to the router is sent on: all that arrived of the token, and the
wrapped KASH as native KASH. -/
theorem sendOn_closed {src : Address} {x y z : Nat} {w₁ w₂ : World} (hs : Setting env w₀ sender)
    (hne : token ≠ env.WETH)
    (hb : Books env sender w₀ w 0 (fun t => arrives env env.router token src env.router x t +
      arrives env env.router env.WETH src env.router y t) 0 0 0)
    (hall : x - env.burned token src env.router x ≤ z)
    (hsend : w.transfer env token env.router dst z = .ok w₁)
    (hwd : WKASH.withdraw env w₁ y = .ok w₂) (hpay : safeTransferETH env w₂ dst y = .ok w')
    (hd : dst ≠ env.router) (hdw : dst ≠ env.WETH) (hpass : Passive env sender dst) :
    Closed env sender dst w₀ w' 0 0 0 y := by
  obtain ⟨-, hb⟩ := hb.send hsend hd
  refine cashOut_closed hs hb (fun t => ?_) hwd hpay hd hdw hpass
  rw [arrives_router hs]
  by_cases htt : t = token
  · rw [if_pos htt, if_pos htt, if_neg (fun h => hne (htt.symm.trans h)), Nat.add_zero]
    exact Nat.sub_eq_zero_of_le hall
  · rw [if_neg htt, if_neg htt, Nat.zero_add, Nat.sub_zero]

theorem removeLiquidityETH_closed {liquidity : Nat} {r : Nat × Nat}
    (hs : Setting env w₀ sender) (h : Books env sender w₀ w 0 (fun _ => 0) 0 0 0)
    (ht : Trades env w token env.WETH) (hd : dst ≠ env.router) (hdw : dst ≠ env.WETH)
    (hpass : Passive env sender dst)
    (hr : removeLiquidityETH env w sender token liquidity minA minB dst deadline = .ok (r, w')) :
    ∃ unwrapped, Closed env sender dst w₀ w' 0 0 0 unwrapped := by
  simp only [removeLiquidityETH, TransferHelper.safeTransfer, bind_eq_ok, orFail_eq_ok, pure_eq_ok,
    Except.ok.injEq, Prod.mk.injEq] at hr
  obtain ⟨-, -, ⟨⟨x, y⟩, w₁⟩, hrem, w₂, hsend, w₃, hwd, w₄, hpay, -, rfl⟩ := hr
  obtain ⟨hne, src, hb⟩ := removeLiquidity_books hs h (fun _ => ht) hrem
  exact ⟨y, sendOn_closed hs hne hb (Nat.sub_le _ _) hsend hwd hpay hd hdw hpass⟩

theorem removeLiquidityETHSupporting_closed {liquidity amountETH : Nat}
    (hs : Setting env w₀ sender) (h : Books env sender w₀ w 0 (fun _ => 0) 0 0 0)
    (ht : Trades env w token env.WETH) (hd : dst ≠ env.router) (hdw : dst ≠ env.WETH)
    (hpass : Passive env sender dst)
    (hr : removeLiquidityETHSupportingFeeOnTransferTokens env w sender token liquidity minA minB
      dst deadline = .ok (amountETH, w')) :
    ∃ unwrapped, Closed env sender dst w₀ w' 0 0 0 unwrapped := by
  simp only [removeLiquidityETHSupportingFeeOnTransferTokens,
    TransferHelper.safeTransfer, bind_eq_ok, orFail_eq_ok, pure_eq_ok, Except.ok.injEq, Prod.mk.injEq] at hr
  obtain ⟨-, -, ⟨⟨x, y⟩, w₁⟩, hrem, w₂, hsend, w₃, hwd, w₄, hpay, -, rfl⟩ := hr
  obtain ⟨hne, src, hb⟩ := removeLiquidity_books hs h (fun _ => ht) hrem
  -- the router sends its balance, which is what arrived
  rw [hb.held, arrives_router hs, if_pos rfl, if_neg hne, Nat.add_zero] at hsend
  exact ⟨y, sendOn_closed hs hne hb le_rfl hsend hwd hpay hd hdw hpass⟩

theorem permitShares_books {liquidity : Nat} {sig : Permit}
    (h : Books env sender w₀ w 0 (fun _ => 0) 0 0 0)
    (hp : permitShares env w sender a b liquidity deadline sig = .ok w') :
    Books env sender w₀ w' 0 (fun _ => 0) 0 0 0 ∧ SamePairs w w' :=
  ⟨h.flow (permitShares_flow hp), (permitShares_flow (r := env.router) hp).pairs⟩

end Liquidity

section Swaps

variable {ys : List Nat}

theorem payFirst_ok (h : payFirst env w sender path v = .ok w') :
    ∃ a b rest, path = a :: b :: rest ∧
      safeTransferFrom env w a sender (pool env a b) v = .ok w' := by
  match path, h with
  | [], h => simp [payFirst, pathAt] at h
  | [a], h => simp [payFirst, pathAt] at h
  | a :: b :: rest, h =>
    simp only [payFirst, pathAt, List.getElem?_cons_zero, List.getElem?_cons_succ, ok_bind,
      bind_eq_ok, pairFor_eq_ok] at h
    obtain ⟨-, ⟨-, -, rfl⟩, h⟩ := h
    exact ⟨a, b, rest, rfl, h⟩

theorem wrapFirst_ok (h : wrapFirst env w path v = .ok w') :
    ∃ a b rest w₁, path = a :: b :: rest ∧ WKASH.deposit env w env.router v = .ok w₁ ∧
      w₁.transfer env env.WETH env.router (pool env a b) v = .ok w' := by
  rw [wrapFirst, bind_eq_ok] at h
  obtain ⟨w₁, hdep, h⟩ := h
  match path, h with
  | [], h => simp [pathAt] at h
  | [a], h => simp [pathAt] at h
  | a :: b :: rest, h =>
    simp only [pathAt, List.getElem?_cons_zero, List.getElem?_cons_succ, ok_bind, bind_eq_ok,
      pairFor_eq_ok] at h
    obtain ⟨-, ⟨-, -, rfl⟩, h⟩ := h
    exact ⟨a, b, rest, w₁, rfl, hdep, h⟩

theorem Hops.first {a b : Address} {rest : List Address}
    (h : Hops env dst w (a :: b :: rest) ys w') :
    (∃ p, w.pair (pool env a b) = some p) ∧ ys ≠ [] := by
  cases h with
  | done _ _ hlen => simp at hlen
  | hop hne hhop htrade hrest => exact ⟨trade_deployed htrade, List.cons_ne_nil _ _⟩

theorem payFirst_books {w₁ : World} (hs : Setting env w₀ sender)
    (h : Books env sender w₀ w 0 (fun _ => 0) 0 0 0)
    (hp : payFirst env w sender path v = .ok w₁) (hh : Hops env dst w₁ path ys w') :
    Books env sender w₀ w₁ 0 (fun _ => 0) 0 0 0 ∧ SamePairs w w₁ ∧ ys ≠ [] := by
  obtain ⟨a, b, rest, rfl, ht⟩ := payFirst_ok hp
  obtain ⟨⟨p, hdep⟩, hne⟩ := hh.first
  have hpair := safeTransferFrom_pair ht
  refine ⟨safeTransferFrom_books h hs (hpair ▸ hdep) ht, fun q p' hq => ?_, hne⟩
  exact ⟨p', hpair ▸ hq, rfl, rfl⟩

theorem wrapFirst_books {w₁ : World} {value : Nat} (hs : Setting env w₀ sender)
    (h : Books env sender w₀ w value (fun _ => 0) value 0 0)
    (hp : wrapFirst env w path v = .ok w₁) (hh : Hops env dst w₁ path ys w') :
    v ≤ value ∧ Books env sender w₀ w₁ (value - v) (fun _ => 0) value v 0 := by
  obtain ⟨a, b, rest, w₂, rfl, hdep, ht⟩ := wrapFirst_ok hp
  obtain ⟨⟨p, hq⟩, -⟩ := hh.first
  obtain ⟨hle, hb⟩ := h.deposit hs hdep
  rw [transfer_pair ht] at hq
  obtain ⟨-, hb⟩ := hb.send ht (ne_of_deployed hb.bare hq).symm
  rw [Nat.zero_add] at hb
  exact ⟨hle, hb.congr fun t => by simp⟩

theorem hops_books (h : Books env sender w₀ w cash held paid wrapped unwrapped)
    (hh : Hops env dst w path ys w') (hd : dst ≠ env.router) :
    Books env sender w₀ w' cash held paid wrapped unwrapped := by
  obtain ⟨-, rfl⟩ | ⟨last, y, src, -, -, hflow⟩ := hh.flow h.bare fun he => (hd he).elim
  · exact h
  · exact (h.flow hflow).congr fun t => by rw [arrives_of_ne y hd, Nat.add_zero]

theorem hops_router_books (hs : Setting env w₀ sender)
    (h : Books env sender w₀ w 0 (fun _ => 0) 0 0 0) (hh : Hops env env.router w path ys w')
    (hne : ys ≠ []) (hlast : path.getLast? = some env.WETH)
    (ht : ∀ pre a b, path = pre ++ [a, b] → Trades env w a b) :
    ∃ y, ys.getLast? = some y ∧
      Books env sender w₀ w' 0 (fun t => if t = env.WETH then y else 0) 0 0 0 := by
  obtain ⟨hnil, -⟩ | ⟨last, y, src, hl, hy, hflow⟩ := hh.flow h.bare fun _ => ht
  · exact (hne hnil).elim
  · obtain rfl : last = env.WETH := Option.some.inj (hl.symm.trans hlast)
    refine ⟨y, hy, (h.flow hflow).congr fun t => ?_⟩
    simp only [arrives, and_true, hs.exact_WETH _ _ _, Nat.sub_zero, Nat.zero_add]

variable {amounts : List Nat} {amountIn amountOut amountOutMin amountInMax deadline value : Nat}

theorem tokensIn_closed {w₁ : World} (hs : Setting env w sender) (he : Empty env w)
    (hd : dst ≠ env.router) (hp : payFirst env w sender path v = .ok w₁)
    (hh : Hops env dst w₁ path ys w') : Closed env sender dst w w' 0 0 0 0 := by
  obtain ⟨hb, -, -⟩ := payFirst_books hs (Books.start hs he) hp hh
  have hb := hops_books hb hh hd
  exact ⟨hb.close fun _ => rfl, rfl, by simpa using hb.paid, by simpa using hb.wrapped⟩

theorem tokensForETH_closed {w₁ w₂ : World} (hs : Setting env w sender) (he : Empty env w)
    (hd : dst ≠ env.router) (hdw : dst ≠ env.WETH) (hpass : Passive env sender dst)
    (hlast : path.getLast? = some env.WETH)
    (ht : ∀ pre a b, path = pre ++ [a, b] → Trades env w a b)
    (hp : payFirst env w sender path v = .ok w₁) (hh : Hops env env.router w₁ path ys w₂)
    (hout : ∀ y, ys.getLast? = some y → w₂.balanceOf env.WETH env.router = y →
      unwrapTo env w₂ dst y = .ok w') :
    ∃ unwrapped, Closed env sender dst w w' 0 0 0 unwrapped := by
  obtain ⟨hb, hsame, hne⟩ := payFirst_books hs (Books.start hs he) hp hh
  obtain ⟨y, hy, hb⟩ := hops_router_books hs hb hh hne hlast
    fun pre a b hpath => (ht pre a b hpath).of_samePairs hsame
  have hun := hout y hy (by rw [hb.held, if_pos rfl])
  rw [unwrapTo, bind_eq_ok] at hun
  obtain ⟨w₃, hwd, hpay⟩ := hun
  exact ⟨y, cashOut_closed hs hb (fun _ => rfl) hwd hpay hd hdw hpass⟩

theorem firstAmount_eq_ok {amounts : List Nat} :
    firstAmount amounts = .ok v ↔ amounts.head? = some v := by
  rw [firstAmount]
  cases amounts.head? <;> simp

theorem lastAmount_eq_ok {amounts : List Nat} :
    lastAmount amounts = .ok v ↔ amounts.getLast? = some v := by
  rw [lastAmount]
  cases amounts.getLast? <;> simp

theorem lastToken_eq_ok {t : Address} : lastToken path = .ok t ↔ path.getLast? = some t := by
  rw [lastToken]
  cases path.getLast? <;> simp

theorem getLast?_tail {y : Nat} (h : amounts.tail.getLast? = some y) :
    amounts.getLast? = some y := by
  match amounts, h with
  | x :: z :: amounts, h => rwa [List.getLast?_cons_cons]

theorem swapExactTokensForTokens_closed (hs : Setting env w sender) (he : Empty env w)
    (hd : dst ≠ env.router)
    (h : swapExactTokensForTokens env w sender amountIn amountOutMin path dst deadline =
      .ok (amounts, w')) : Closed env sender dst w w' 0 0 0 0 := by
  simp only [swapExactTokensForTokens, bind_eq_ok, pure_eq_ok, Except.ok.injEq,
    Prod.mk.injEq] at h
  obtain ⟨-, -, amounts, hq, -, -, -, -, x, -, w₁, hp, w₂, hh, rfl, rfl⟩ := h
  exact tokensIn_closed hs he hd hp (swapAmounts_hops (getAmountsOut_shape hq).1 hh)

theorem swapTokensForExactTokens_closed (hs : Setting env w sender) (he : Empty env w)
    (hd : dst ≠ env.router)
    (h : swapTokensForExactTokens env w sender amountOut amountInMax path dst deadline =
      .ok (amounts, w')) : Closed env sender dst w w' 0 0 0 0 := by
  simp only [swapTokensForExactTokens, bind_eq_ok, pure_eq_ok, Except.ok.injEq,
    Prod.mk.injEq] at h
  obtain ⟨-, -, amounts, hq, -, -, -, -, x, -, w₁, hp, w₂, hh, rfl, rfl⟩ := h
  exact tokensIn_closed hs he hd hp (swapAmounts_hops (getAmountsIn_length hq) hh)

theorem quotedForETH_closed {w₁ w₂ : World} {out : Nat} (hs : Setting env w sender)
    (he : Empty env w) (hd : dst ≠ env.router) (hdw : dst ≠ env.WETH) (hpass : Passive env sender dst)
    (hlast : path.getLast? = some env.WETH)
    (ht : ∀ pre a b, path = pre ++ [a, b] → Trades env w a b) (hlen : amounts.length = path.length)
    (hp : payFirst env w sender path v = .ok w₁)
    (hh : swapAmounts env env.router w₁ amounts path = .ok w₂) (hout : lastAmount amounts = .ok out)
    (hun : unwrapTo env w₂ dst out = .ok w') :
    ∃ unwrapped, Closed env sender dst w w' 0 0 0 unwrapped := by
  refine tokensForETH_closed hs he hd hdw hpass hlast ht hp (swapAmounts_hops hlen hh) fun y hy _ => ?_
  rw [lastAmount_eq_ok, getLast?_tail hy] at hout
  rwa [Option.some.inj hout]

theorem swapExactTokensForETH_closed (hs : Setting env w sender) (he : Empty env w)
    (hd : dst ≠ env.router) (hdw : dst ≠ env.WETH) (hpass : Passive env sender dst)
    (ht : ∀ pre a b, path = pre ++ [a, b] → Trades env w a b)
    (h : swapExactTokensForETH env w sender amountIn amountOutMin path dst deadline =
      .ok (amounts, w')) : ∃ unwrapped, Closed env sender dst w w' 0 0 0 unwrapped := by
  simp only [swapExactTokensForETH, bind_eq_ok, require_eq_ok, lastToken_eq_ok, pure_eq_ok,
    Except.ok.injEq, Prod.mk.injEq] at h
  obtain ⟨-, -, _, hlast, -, rfl, amounts, hq, -, -, -, -, x, -, w₁, hp, w₂, hh, z, hz, w₃, hun, rfl,
    rfl⟩ := h
  exact quotedForETH_closed hs he hd hdw hpass hlast ht (getAmountsOut_shape hq).1 hp hh hz hun

theorem swapTokensForExactETH_closed (hs : Setting env w sender) (he : Empty env w)
    (hd : dst ≠ env.router) (hdw : dst ≠ env.WETH) (hpass : Passive env sender dst)
    (ht : ∀ pre a b, path = pre ++ [a, b] → Trades env w a b)
    (h : swapTokensForExactETH env w sender amountOut amountInMax path dst deadline =
      .ok (amounts, w')) : ∃ unwrapped, Closed env sender dst w w' 0 0 0 unwrapped := by
  simp only [swapTokensForExactETH, bind_eq_ok, require_eq_ok, lastToken_eq_ok, pure_eq_ok,
    Except.ok.injEq, Prod.mk.injEq] at h
  obtain ⟨-, -, _, hlast, -, rfl, amounts, hq, -, -, -, -, x, -, w₁, hp, w₂, hh, z, hz, w₃, hun, rfl,
    rfl⟩ := h
  exact quotedForETH_closed hs he hd hdw hpass hlast ht (getAmountsIn_length hq) hp hh hz hun

theorem swapExactTokensForETHSupporting_closed (hs : Setting env w sender) (he : Empty env w)
    (hd : dst ≠ env.router) (hdw : dst ≠ env.WETH) (hpass : Passive env sender dst)
    (ht : ∀ pre a b, path = pre ++ [a, b] → Trades env w a b)
    (h : swapExactTokensForETHSupportingFeeOnTransferTokens env w sender amountIn amountOutMin
      path dst deadline = .ok ((), w')) :
    ∃ unwrapped, Closed env sender dst w w' 0 0 0 unwrapped := by
  simp only [swapExactTokensForETHSupportingFeeOnTransferTokens, bind_eq_ok, require_eq_ok,
    lastToken_eq_ok, pure_eq_ok, Except.ok.injEq, Prod.mk.injEq, true_and] at h
  obtain ⟨-, -, _, hlast, -, rfl, w₁, hp, w₂, hh, -, -, w₃, hun, rfl⟩ := h
  obtain ⟨ys, hh⟩ := swapSupporting_hops hh
  refine tokensForETH_closed hs he hd hdw hpass hlast ht hp hh fun y _ hbal => ?_
  rwa [← hbal]

theorem swapExactTokensForTokensSupporting_closed (hs : Setting env w sender)
    (he : Empty env w) (hd : dst ≠ env.router)
    (h : swapExactTokensForTokensSupportingFeeOnTransferTokens env w sender amountIn
      amountOutMin path dst deadline = .ok ((), w')) :
    Closed env sender dst w w' 0 0 0 0 := by
  simp only [swapExactTokensForTokensSupportingFeeOnTransferTokens, swapMeasured, bind_eq_ok,
    pure_eq_ok, Except.ok.injEq, Prod.mk.injEq, true_and] at h
  obtain ⟨-, -, w₁, hp, w₂, ⟨-, -, w₃, hh, -, -, -, -, rfl⟩, rfl⟩ := h
  obtain ⟨ys, hh⟩ := swapSupporting_hops hh
  exact tokensIn_closed hs he hd hp hh

/-- KASH that came with the call is wrapped, traded and paid out; what was
not wrapped is still there. -/
theorem wrapped_books {w₁ : World} (hs : Setting env w sender) (he : Empty env w)
    (hd : dst ≠ env.router) (hv : value ≤ w.native sender)
    (hp : wrapFirst env (w.moveNative sender env.router value) path v = .ok w₁)
    (hh : Hops env dst w₁ path ys w') :
    v ≤ value ∧ Books env sender w w' (value - v) (fun _ => 0) value v 0 := by
  obtain ⟨hle, hb⟩ := wrapFirst_books hs (Books.receive hs he hv) hp hh
  exact ⟨hle, hops_books hb hh hd⟩

theorem wrapped_closed {w₁ : World} (hs : Setting env w sender) (he : Empty env w)
    (hd : dst ≠ env.router) (hv : value ≤ w.native sender)
    (hp : wrapFirst env (w.moveNative sender env.router value) path value = .ok w₁)
    (hh : Hops env dst w₁ path ys w') : Closed env sender dst w w' value value 0 0 := by
  obtain ⟨-, hb⟩ := wrapped_books hs he hd hv hp hh
  rw [Nat.sub_self] at hb
  exact ⟨hb.close fun _ => rfl, rfl, by simpa using hb.paid, hb.wrapped⟩

theorem swapExactETHForTokens_closed (hs : Setting env w sender) (he : Empty env w)
    (hd : dst ≠ env.router)
    (h : swapExactETHForTokens env w sender value amountOutMin path dst deadline =
      .ok (amounts, w')) : Closed env sender dst w w' value value 0 0 := by
  simp only [swapExactETHForTokens, payable, bind_eq_ok, require_eq_ok, firstAmount_eq_ok,
    pure_eq_ok, Except.ok.injEq, Prod.mk.injEq] at h
  obtain ⟨-, hv, -, -, -, -, -, -, amounts, hq, -, -, -, -, x, hx, w₁, hp, w₂, hh, rfl, rfl⟩ := h
  obtain ⟨hlen, hhead⟩ := getAmountsOut_shape hq
  obtain rfl : value = x := Option.some.inj (hhead.symm.trans hx)
  exact wrapped_closed hs he hd hv hp (swapAmounts_hops hlen hh)

theorem swapETHForExactTokens_closed (hs : Setting env w sender) (he : Empty env w)
    (hd : dst ≠ env.router)
    (h : swapETHForExactTokens env w sender value amountOut path dst deadline =
      .ok (amounts, w')) :
    ∃ wrapped, Closed env sender dst w w' value wrapped (value - wrapped) 0 := by
  simp only [swapETHForExactTokens, payable, bind_eq_ok, require_eq_ok, pure_eq_ok,
    Except.ok.injEq, Prod.mk.injEq] at h
  obtain ⟨-, hv, -, -, -, -, -, -, amounts, hq, x, -, -, -, w₁, hp, w₂, hh, w₃, href, rfl, rfl⟩ := h
  obtain ⟨hle, hb⟩ := wrapped_books hs he hd hv hp
    (swapAmounts_hops (getAmountsIn_length hq) hh)
  exact ⟨x, refund_closed hs hb hle (fun _ => rfl) href⟩

theorem swapExactETHForTokensSupporting_closed (hs : Setting env w sender) (he : Empty env w)
    (hd : dst ≠ env.router)
    (h : swapExactETHForTokensSupportingFeeOnTransferTokens env w sender value amountOutMin
      path dst deadline = .ok ((), w')) : Closed env sender dst w w' value value 0 0 := by
  simp only [swapExactETHForTokensSupportingFeeOnTransferTokens, payable, swapMeasured,
    bind_eq_ok, require_eq_ok, pure_eq_ok, Except.ok.injEq, Prod.mk.injEq, true_and] at h
  obtain ⟨-, hv, -, -, -, -, -, -, w₁, hp, w₂, ⟨-, -, w₃, hh, -, -, -, -, rfl⟩, rfl⟩ := h
  obtain ⟨ys, hh⟩ := swapSupporting_hops hh
  exact wrapped_closed hs he hd hv hp hh

end Swaps

end ArkSwap
