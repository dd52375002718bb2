import ArkSwap.RouterCalls
import ArkSwap.RouterSupporting

/-! Every swap of the router carries out the amounts it quotes when its bound admits
them, whether tokens or native KASH are paid and paid out. -/

namespace ArkSwap

open Checked ArkSwapPair ArkSwapLibrary ArkSwapRouter02

variable {env : Env} {w w₁ w' : World} {a b dst sender : Address} {path : List Address}
  {amounts : List Nat} {x y : Nat}

/-- The sender has the first amount in tokens, which the router may take. -/
structure Funds (env : Env) (w : World) (sender : Address) (path : List Address) (x : Nat) :
    Prop where
  outside : sender ∉ poolsOf env path
  held : ∀ t, path.head? = some t → x ≤ w.balanceOf t sender
  approved : ∀ t, path.head? = some t → x ≤ (w.token t).allowance sender env.router

/-- The path starts at wrapped KASH, and there is room to wrap the first amount. -/
structure Wraps (env : Env) (w : World) (path : List Address) (x : Nat) : Prop where
  first : path.head? = some env.WETH
  outside : env.router ∉ poolsOf env path
  room : (w.token env.WETH).totalSupply + x < Uint.size

/-- The path ends at wrapped KASH, which is backed, and `dst` accepts native KASH. -/
structure Unwraps (env : Env) (w : World) (dst : Address) (path : List Address) (y : Nat) :
    Prop where
  last : path.getLast? = some env.WETH
  backed : w.balanceOf env.WETH env.router + y ≤ w.native env.WETH
  dst_ne : dst ≠ env.router
  dst_ne_WETH : dst ≠ env.WETH
  accepts : ∀ w, ∃ w', env.receive dst w = .ok w'

section Payment

theorem payFirst_native (h : payFirst env w sender path x = .ok w₁) : w₁.native = w.native := by
  obtain ⟨a, b, rest, rfl, ht⟩ := payFirst_ok h
  rw [TransferHelper.safeTransferFrom, orFail_eq_ok, World.transferFrom, bind_eq_ok] at ht
  obtain ⟨t', -, ht⟩ := ht
  simp only [World.transfer, bind_eq_ok, pure_eq_ok, Except.ok.injEq] at ht
  obtain ⟨-, -, -, -, rfl⟩ := ht
  rfl

theorem Funds.pays (h : Funds env w sender (a :: b :: path) x)
    (hcourse : Course env w dst (a :: b :: path) amounts)
    (hw : Waiting env w (a :: b :: path) amounts) :
    ∃ w₁, payFirst env w sender (a :: b :: path) x = .ok w₁ ∧
      Paid env w w₁ (a :: b :: path) x ∧ w₁.native = w.native ∧
      ∀ t c, c ≠ sender → c ∉ poolsOf env (a :: b :: path) → w₁.balanceOf t c = w.balanceOf t c := by
  obtain ⟨hne, h0⟩ := hw.first
  obtain ⟨w₁, hpay, hpaid, hbal⟩ := payFirst_paid hne h0 (hcourse.plain a List.mem_cons_self).1
    h.outside (h.held a rfl) (h.approved a rfl)
  refine ⟨w₁, hpay, hpaid, payFirst_native hpay, fun t c hc hp => ?_⟩
  have hcp : c ≠ pool env a b := fun h' => hp (h' ▸ List.mem_cons_self ..)
  rw [hbal, balanceOf_moved hc, if_neg fun h => hcp h.2, Nat.add_zero]

/-- Native KASH of the router reaches the first pool, wrapped. -/
theorem Wraps.pays (h : Wraps env w (a :: b :: path) x)
    (hcourse : Course env w dst (a :: b :: path) amounts)
    (hw : Waiting env w (a :: b :: path) amounts) (hx : x ≤ w.native env.router) :
    ∃ w₁, wrapFirst env w (a :: b :: path) x = .ok w₁ ∧ Paid env w w₁ (a :: b :: path) x ∧
      w₁.native = Ledger.move w.native env.router env.WETH x := by
  obtain rfl : a = env.WETH := Option.some.inj h.first
  obtain ⟨hne, h0⟩ := hw.first
  obtain ⟨hplain, -⟩ := hcourse.plain _ List.mem_cons_self
  have hissued : (issued (w.token env.WETH) env.router x).Conserved := hplain.conserved.issued h.room
  have hmint : (w.token env.WETH).mint env.router x = .ok (issued (w.token env.WETH) env.router x) := by
    have hfits := hissued.balance_lt env.router
    rw [issued_balanceOf, Ledger.credit_self] at hfits
    exact ArkSwapERC20.mint_eq_ok.mpr ⟨h.room, hfits, rfl⟩
  have hdeposit : WKASH.deposit env w env.router x = .ok ((w.moveNative env.router env.WETH x).setToken
      env.WETH (issued (w.token env.WETH) env.router x)) := by
    rw [WKASH.deposit, require_of hx, ok_bind, hmint]
    rfl
  have hheld : x ≤ (issued (w.token env.WETH) env.router x).balanceOf env.router := by
    rw [issued_balanceOf, Ledger.credit_self]
    exact Nat.le_add_left x _
  have hfor : pairFor env env.WETH b = .ok (pool env env.WETH b) := pairFor_eq_ok.mpr ⟨hne, h0, rfl⟩
  refine ⟨((w.moveNative env.router env.WETH x).setToken env.WETH
    (issued (w.token env.WETH) env.router x)).moved env.WETH env.router (pool env env.WETH b) x,
    ?_, ⟨rfl, fun t q hq => ?_, fun t ht => ?_⟩, rfl⟩
  · simp only [wrapFirst, hdeposit, pathAt, List.getElem?_cons_zero, List.getElem?_cons_succ, ok_bind,
      hfor]
    refine (World.transfer_eq_ok hplain.standard).mpr ?_
    rw [World.setToken_token, World.balanceOf_setToken]
    exact ⟨hheld, hissued.debit_add_lt hheld, rfl⟩
  · have hqr : q ≠ env.router := ne_of_mem_of_not_mem hq h.outside
    rw [balanceOf_moved hqr]
    have hkeep : ((w.moveNative env.router env.WETH x).setToken env.WETH
        (issued (w.token env.WETH) env.router x)).balanceOf t q = w.balanceOf t q := by
      by_cases ht : t = env.WETH
      · subst ht
        rw [World.balanceOf_setToken, issued_balanceOf, Ledger.credit_of_ne _ _ hqr]
        rfl
      · rw [World.balanceOf_setToken_of_ne _ ht]
        rfl
    rw [hkeep]
    simp [poolsOf, eq_comm]
  · have hheld' : x ≤ ((w.moveNative env.router env.WETH x).setToken env.WETH
        (issued (w.token env.WETH) env.router x)).balanceOf env.WETH env.router := by
      rw [World.balanceOf_setToken]
      exact hheld
    refine conserved_moved hheld' rfl ?_
    by_cases htw : t = env.WETH
    · subst htw
      rw [World.setToken_token]
      exact hissued
    · rw [World.setToken_token_of_ne htw]
      exact ht

theorem Level.paid (h : Level env w 0 path) (hnd : (poolsOf env path).Nodup)
    (hpaid : Paid env w w₁ path x) : Level env w₁ x path :=
  h.raised hnd hpaid.pair hpaid.balance

end Payment

section Trade

theorem Hops.native {ys : List Nat} (h : Hops env dst w path ys w') : w'.native = w.native := by
  induction h with
  | done => rfl
  | @hop w w₁ w' a b next rest y ys hne hhop htrade hrest ih =>
    obtain ⟨r, hr⟩ := exists_ne (pool env a b)
    obtain ⟨_, -, hflow⟩ := swap_flow htrade hr
    exact ih.trans hflow.native

theorem Waiting.length (h : Waiting env w path amounts) : amounts.length = path.length := by
  induction path generalizing amounts with
  | nil => cases amounts <;> exact h.elim
  | cons a path ih =>
    match path, amounts, h with
    | [], [x], _ => rfl
    | b :: rest, x :: y :: amounts, ⟨_, hrest⟩ => simpa using ih hrest

/-- Once paid, the pools trade and leave native KASH alone. -/
theorem Course.carries {last : Address} (h : Course env w dst (a :: b :: path) (x :: amounts))
    (hw : Waiting env w (a :: b :: path) (x :: amounts)) (hpaid : Paid env w w₁ (a :: b :: path) x)
    (hlast : (a :: b :: path).getLast? = some last) (hy : (x :: amounts).getLast? = some y) :
    ∃ w', swapAmounts env dst w₁ (x :: amounts) (a :: b :: path) = .ok w' ∧ w'.native = w₁.native ∧
      (∀ t, (w.token t).Conserved → (w'.token t).Conserved) ∧
      ∀ t c, c ∉ poolsOf env (a :: b :: path) →
        w'.balanceOf t c = w₁.balanceOf t c + if t = last ∧ c = dst then y else 0 := by
  obtain ⟨w', hrun, hcons, hend⟩ := h.trades hw hpaid hlast hy
  exact ⟨w', hrun, (swapAmounts_hops hw.length hrun).native,
    fun t ht => hcons t (hpaid.conserved t ht), hend⟩

/-- Wrapped KASH of the router goes to `dst` as native KASH. -/
theorem Unwraps.paysOut {z : Nat} (h : Unwraps env w dst path y)
    (hc : (w'.token env.WETH).Conserved) (hheld : z ≤ w'.balanceOf env.WETH env.router)
    (hback : z ≤ w'.native env.WETH) (hne : env.WETH ≠ env.router) :
    ∃ w'', unwrapTo env w' dst z = .ok w'' := by
  have hsupply : z ≤ (w'.token env.WETH).totalSupply :=
    hheld.trans (hc.1 ▸ Ledger.le_sum (w'.token env.WETH).balanceOf env.router)
  obtain ⟨t', hburn⟩ : ∃ t', (w'.token env.WETH).burn env.router z = .ok t' :=
    ⟨_, ArkSwapERC20.burn_eq_ok.mpr ⟨hheld, hsupply, rfl⟩⟩
  obtain ⟨w₂, hwithdraw, hnative⟩ : ∃ w₂, WKASH.withdraw env w' z = .ok w₂ ∧
      w₂.native = Ledger.move w'.native env.WETH env.router z := by
    refine ⟨(w'.setToken env.WETH t').moveNative env.WETH env.router z, ?_, rfl⟩
    rw [WKASH.withdraw, orFail_eq_ok.mpr hburn, ok_bind, require_of hback]
    rfl
  have hcash : z ≤ w₂.native env.router := by
    rw [hnative, Ledger.move_dst z hne.symm]
    exact Nat.le_add_left z _
  obtain ⟨w'', hreceive⟩ := h.accepts (w₂.moveNative env.router dst z)
  refine ⟨w'', ?_⟩
  rw [unwrapTo, hwithdraw, ok_bind, TransferHelper.safeTransferETH, orFail_eq_ok, require_of hcash,
    ok_bind, if_neg h.dst_ne_WETH, if_neg h.dst_ne]
  exact hreceive

/-- The path is ready for these amounts, from the first to the last. -/
structure Planned (env : Env) (w : World) (path : List Address) (amounts : List Nat) (x y : Nat) :
    Prop where
  hop : 2 ≤ path.length
  first : amounts.head? = some x
  last : amounts.getLast? = some y
  waiting : Waiting env w path amounts

theorem amountsOut_pos (hq : amountsOut env w x path = .ok amounts) (hy : amounts.getLast? = some y)
    (hpos : 0 < y) : ∀ z ∈ amounts, 0 < z := by
  induction path generalizing x amounts with
  | nil =>
    obtain rfl := Except.ok.inj hq
    obtain rfl : x = y := Option.some.inj hy
    simpa using hpos
  | cons a path ih =>
    rcases path with _ | ⟨b, path⟩
    · obtain rfl := Except.ok.inj hq
      obtain rfl : x = y := Option.some.inj hy
      simpa using hpos
    · simp only [amountsOut, bind_eq_ok, pure_eq_ok, Except.ok.injEq] at hq
      obtain ⟨_, -, v, hv, rest, hrest, rfl⟩ := hq
      obtain ⟨hx, -⟩ := getAmountOut_ok hv
      obtain ⟨ys, rfl⟩ := List.head?_eq_some_iff.mp (amountsOut_shape hrest (List.cons_ne_nil _ _)).2
      rw [List.getLast?_cons_cons] at hy
      intro z hz
      rcases List.mem_cons.mp hz with rfl | hz
      · exact hx
      · exact ih hrest hy z hz

theorem planned_of_out (hq : getAmountsOut env w x path = .ok amounts)
    (hready : Routable env w path amounts) (hy : amounts.getLast? = some y) (hpos : 0 < y) :
    Planned env w path amounts x y := by
  rw [getAmountsOut, bind_eq_ok] at hq
  obtain ⟨_, hlen, hq⟩ := hq
  rw [require_eq_ok] at hlen
  obtain ⟨hhead, hw⟩ := amountsOut_waiting hq (List.ne_nil_of_length_pos (by omega)) hready
    (amountsOut_pos hq hy hpos)
  exact ⟨hlen, hhead, hy, hw⟩

theorem planned_of_in (hq : getAmountsIn env w y path = .ok amounts)
    (hready : Routable env w path amounts) (hx : amounts.head? = some x) :
    Planned env w path amounts x y := by
  simp only [getAmountsIn, bind_eq_ok, require_eq_ok, pure_eq_ok, Except.ok.injEq] at hq
  obtain ⟨_, hlen, ⟨v, ys⟩, hq, rfl⟩ := hq
  obtain ⟨hlast, hw⟩ := amountsIn_waiting hq (List.ne_nil_of_length_pos (by omega)) hready
  exact ⟨hlen, hx, hlast, hw⟩

/-- A planned trade as its path and its amounts show it. -/
theorem Planned.shape (h : Planned env w path amounts x y) :
    ∃ a b rest ys, path = a :: b :: rest ∧ amounts = x :: ys := by
  obtain ⟨a, b, rest, rfl⟩ := exists_two h.hop
  obtain ⟨ys, rfl⟩ := List.head?_eq_some_iff.mp h.first
  exact ⟨a, b, rest, ys, rfl, rfl⟩

theorem Planned.tokensForTokens (h : Planned env w path amounts x y)
    (hcourse : Course env w dst path amounts) (hfunds : Funds env w sender path x) :
    ∃ w₁ w', payFirst env w sender path x = .ok w₁ ∧ Paid env w w₁ path x ∧
      swapAmounts env dst w₁ amounts path = .ok w' := by
  obtain ⟨a, b, rest, ys, rfl, rfl⟩ := h.shape
  obtain ⟨w₁, hpay, hpaid, -⟩ := hfunds.pays hcourse h.waiting
  obtain ⟨last, hlast⟩ : ∃ last, (a :: b :: rest).getLast? = some last :=
    ⟨_, List.getLast?_eq_some_getLast (List.cons_ne_nil a _)⟩
  obtain ⟨w', hrun, -⟩ := hcourse.carries h.waiting hpaid hlast h.last
  exact ⟨w₁, w', hpay, hpaid, hrun⟩

/-- What the router did not wrap is left for a refund. -/
theorem Planned.kashForTokens (h : Planned env w path amounts x y)
    (hcourse : Course env w dst path amounts) (hwraps : Wraps env w path x)
    (hrouter : env.WETH ≠ env.router) (hx : x ≤ w.native env.router) :
    ∃ w₁ w', wrapFirst env w path x = .ok w₁ ∧ Paid env w w₁ path x ∧
      swapAmounts env dst w₁ amounts path = .ok w' ∧
      w'.native env.router = w.native env.router - x := by
  obtain ⟨a, b, rest, ys, rfl, rfl⟩ := h.shape
  obtain ⟨w₁, hpay, hpaid, hnative₁⟩ := hwraps.pays hcourse h.waiting hx
  obtain ⟨last, hlast⟩ : ∃ last, (a :: b :: rest).getLast? = some last :=
    ⟨_, List.getLast?_eq_some_getLast (List.cons_ne_nil a _)⟩
  obtain ⟨w', hrun, hnative, -⟩ := hcourse.carries h.waiting hpaid hlast h.last
  refine ⟨w₁, w', hpay, hpaid, hrun, ?_⟩
  rw [hnative, hnative₁]
  exact Ledger.move_src x hrouter.symm

/-- The router is paid `y` of wrapped KASH, and can pay out all it then has. -/
theorem Planned.tokensForKash (h : Planned env w path amounts x y)
    (hcourse : Course env w env.router path amounts) (hfunds : Funds env w sender path x)
    (hunwraps : Unwraps env w dst path y) (hrouter : env.WETH ≠ env.router)
    (hsender : sender ≠ env.router) :
    ∃ w₁ w₂, payFirst env w sender path x = .ok w₁ ∧ Paid env w w₁ path x ∧
      swapAmounts env env.router w₁ amounts path = .ok w₂ ∧
      y ≤ w₂.balanceOf env.WETH env.router ∧
      ∀ z ≤ w₂.balanceOf env.WETH env.router, ∃ w', unwrapTo env w₂ dst z = .ok w' := by
  obtain ⟨a, b, rest, ys, rfl, rfl⟩ := h.shape
  obtain ⟨w₁, hpay, hpaid, hnative₁, hkeep⟩ := hfunds.pays hcourse h.waiting
  obtain ⟨w₂, hrun, hnative, hcons, hend⟩ := hcourse.carries h.waiting hpaid hunwraps.last h.last
  have hrich : w₂.balanceOf env.WETH env.router = w.balanceOf env.WETH env.router + y := by
    rw [hend _ _ hcourse.dst_ne, if_pos ⟨rfl, rfl⟩, hkeep _ _ hsender.symm hcourse.dst_ne]
  have hplain := hcourse.plain env.WETH (List.mem_of_getLast? hunwraps.last)
  refine ⟨w₁, w₂, hpay, hpaid, hrun, hrich ▸ Nat.le_add_left y _, fun z hz => ?_⟩
  refine hunwraps.paysOut (hcons _ hplain.1.conserved) hz ?_ hrouter
  rw [hnative, hnative₁]
  exact (hrich ▸ hz).trans hunwraps.backed

end Trade

section Agreement

/-! What a trade needs of the tokens and the pairs, native KASH apart. -/

theorem Ready.congr (hp : w'.pair = w.pair) (ht : w'.token = w.token) (h : Ready env w a b x) :
    Ready env w' a b x := by
  unfold Ready World.balanceOf at h ⊢
  rw [hp, ht]
  exact h

theorem Routable.congr (hp : w'.pair = w.pair) (ht : w'.token = w.token)
    (h : Routable env w path amounts) : Routable env w' path amounts := by
  induction path generalizing amounts with
  | nil => trivial
  | cons a path ih =>
    match path, amounts, h with
    | [], _, _ => trivial
    | _ :: _, [], _ => trivial
    | b :: path, x :: amounts, ⟨hready, hrest⟩ => exact ⟨hready.congr hp ht, ih hrest⟩

theorem Course.congr (hp : w'.pair = w.pair) (ht : w'.token = w.token)
    (h : Course env w dst path amounts) : Course env w' dst path amounts where
  distinct := h.distinct
  plain t hmem := ⟨⟨(h.plain t hmem).1.standard, ht ▸ (h.plain t hmem).1.conserved⟩,
    (h.plain t hmem).2⟩
  ready := h.ready.congr hp ht
  dst_ne := h.dst_ne
  dst_token := h.dst_token

theorem Planned.congr (hp : w'.pair = w.pair) (ht : w'.token = w.token)
    (h : Planned env w path amounts x y) : Planned env w' path amounts x y :=
  { h with
    waiting := h.waiting.congr fun q _ => ⟨by rw [hp], fun t => by
      rw [World.balanceOf, ht]
      rfl⟩ }

theorem getAmountsOut_congr (hp : w'.pair = w.pair) (x : Nat) (path : List Address) :
    getAmountsOut env w' x path = getAmountsOut env w x path := by
  have hsame : amountsOut env w' x path = amountsOut env w x path :=
    amountsOut_congr fun q _ => congrFun hp q
  rw [getAmountsOut, getAmountsOut, hsame]

theorem amountsIn_congr (hp : w'.pair = w.pair) (y : Nat) (path : List Address) :
    amountsIn env w' y path = amountsIn env w y path := by
  induction path with
  | nil => rfl
  | cons a path ih =>
    cases path with
    | nil => rfl
    | cons b path => simp only [amountsIn, ih, getReserves_congr (congrFun hp _)]

theorem getAmountsIn_congr (hp : w'.pair = w.pair) (y : Nat) (path : List Address) :
    getAmountsIn env w' y path = getAmountsIn env w y path := by
  rw [getAmountsIn, getAmountsIn, amountsIn_congr hp y path]

end Agreement

section Swaps

variable {value bound deadline : Nat}

theorem swapExactTokensForTokens_runs (hd : w.timestamp ≤ deadline)
    (hq : getAmountsOut env w x path = .ok amounts) (h : Planned env w path amounts x y)
    (hcourse : Course env w dst path amounts) (hfunds : Funds env w sender path x) (hb : bound ≤ y) :
    ∃ w', swapExactTokensForTokens env w sender x bound path dst deadline = .ok (amounts, w') := by
  obtain ⟨w₁, w', hpay, -, hrun⟩ := h.tokensForTokens hcourse hfunds
  refine ⟨w', ?_⟩
  rw [swapExactTokensForTokens, ensure, require_of hd, ok_bind, hq, ok_bind,
    lastAmount_eq_ok.mpr h.last, ok_bind, require_of hb, ok_bind, firstAmount_eq_ok.mpr h.first,
    ok_bind, hpay, ok_bind, hrun]
  rfl

theorem swapTokensForExactTokens_runs (hd : w.timestamp ≤ deadline)
    (hq : getAmountsIn env w y path = .ok amounts) (h : Planned env w path amounts x y)
    (hcourse : Course env w dst path amounts) (hfunds : Funds env w sender path x) (hb : x ≤ bound) :
    ∃ w', swapTokensForExactTokens env w sender y bound path dst deadline = .ok (amounts, w') := by
  obtain ⟨w₁, w', hpay, -, hrun⟩ := h.tokensForTokens hcourse hfunds
  refine ⟨w', ?_⟩
  rw [swapTokensForExactTokens, ensure, require_of hd, ok_bind, hq, ok_bind,
    firstAmount_eq_ok.mpr h.first, ok_bind, require_of hb, ok_bind, ok_bind, hpay, ok_bind, hrun]
  rfl

theorem swapExactTokensForETH_runs (hset : Setting env w sender) (hd : w.timestamp ≤ deadline)
    (hq : getAmountsOut env w x path = .ok amounts) (h : Planned env w path amounts x y)
    (hcourse : Course env w env.router path amounts) (hfunds : Funds env w sender path x)
    (hunwraps : Unwraps env w dst path y) (hb : bound ≤ y) :
    ∃ w', swapExactTokensForETH env w sender x bound path dst deadline = .ok (amounts, w') := by
  obtain ⟨w₁, w₂, hpay, -, hrun, hrich, hout⟩ :=
    h.tokensForKash hcourse hfunds hunwraps hset.WETH_ne hset.sender_ne
  obtain ⟨w', hout⟩ := hout y hrich
  refine ⟨w', ?_⟩
  rw [swapExactTokensForETH, ensure, require_of hd, ok_bind, lastToken_eq_ok.mpr hunwraps.last,
    ok_bind, require_of rfl, ok_bind, hq, ok_bind, lastAmount_eq_ok.mpr h.last, ok_bind,
    require_of hb, ok_bind, firstAmount_eq_ok.mpr h.first, ok_bind, hpay, ok_bind, hrun, ok_bind,
    ok_bind, hout]
  rfl

theorem swapTokensForExactETH_runs (hset : Setting env w sender) (hd : w.timestamp ≤ deadline)
    (hq : getAmountsIn env w y path = .ok amounts) (h : Planned env w path amounts x y)
    (hcourse : Course env w env.router path amounts) (hfunds : Funds env w sender path x)
    (hunwraps : Unwraps env w dst path y) (hb : x ≤ bound) :
    ∃ w', swapTokensForExactETH env w sender y bound path dst deadline = .ok (amounts, w') := by
  obtain ⟨w₁, w₂, hpay, -, hrun, hrich, hout⟩ :=
    h.tokensForKash hcourse hfunds hunwraps hset.WETH_ne hset.sender_ne
  obtain ⟨w', hout⟩ := hout y hrich
  refine ⟨w', ?_⟩
  rw [swapTokensForExactETH, ensure, require_of hd, ok_bind, lastToken_eq_ok.mpr hunwraps.last,
    ok_bind, require_of rfl, ok_bind, hq, ok_bind, firstAmount_eq_ok.mpr h.first, ok_bind,
    require_of hb, ok_bind, ok_bind, hpay, ok_bind, hrun, ok_bind, lastAmount_eq_ok.mpr h.last,
    ok_bind, hout]
  rfl

/-- The KASH that was sent along is the router's, and all else is as before. -/
theorem Planned.kashArrived (hset : Setting env w sender) (h : Planned env w path amounts x y)
    (hcourse : Course env w dst path amounts) (hwraps : Wraps env w path x) (hb : x ≤ value) :
    ∃ w₁ w', wrapFirst env (w.moveNative sender env.router value) path x = .ok w₁ ∧
      Paid env (w.moveNative sender env.router value) w₁ path x ∧
      swapAmounts env dst w₁ amounts path = .ok w' ∧ value - x ≤ w'.native env.router := by
  have hdst : (w.moveNative sender env.router value).native env.router =
      w.native env.router + value := Ledger.move_dst value hset.sender_ne.symm
  have hrich : value ≤ (w.moveNative sender env.router value).native env.router := by omega
  have hp : (w.moveNative sender env.router value).pair = w.pair := rfl
  have ht : (w.moveNative sender env.router value).token = w.token := rfl
  obtain ⟨w₁, w', hpay, hpaid, hrun, hleft⟩ := (h.congr hp ht).kashForTokens (hcourse.congr hp ht)
    ⟨hwraps.first, hwraps.outside, hwraps.room⟩ hset.WETH_ne (hb.trans hrich)
  exact ⟨w₁, w', hpay, hpaid, hrun, hleft ▸ Nat.sub_le_sub_right hrich x⟩

theorem pathAt_zero {t : Address} (h : path.head? = some t) : pathAt path 0 = .ok t := by
  rw [pathAt, ← List.head?_eq_getElem?, h]

theorem swapExactETHForTokens_runs (hset : Setting env w sender) (hd : w.timestamp ≤ deadline)
    (hcash : x ≤ w.native sender) (hq : getAmountsOut env w x path = .ok amounts)
    (h : Planned env w path amounts x y) (hcourse : Course env w dst path amounts)
    (hwraps : Wraps env w path x) (hb : bound ≤ y) :
    ∃ w', swapExactETHForTokens env w sender x bound path dst deadline = .ok (amounts, w') := by
  obtain ⟨w₁, w', hpay, -, hrun, -⟩ := h.kashArrived hset hcourse hwraps (le_refl x)
  have hp : (w.moveNative sender env.router x).pair = w.pair := rfl
  have hd' : (w.moveNative sender env.router x).timestamp ≤ deadline := hd
  refine ⟨w', ?_⟩
  rw [swapExactETHForTokens, payable, require_of hcash, ok_bind, ensure, require_of hd', ok_bind,
    pathAt_zero hwraps.first, ok_bind, require_of rfl, ok_bind, getAmountsOut_congr hp, hq, ok_bind,
    lastAmount_eq_ok.mpr h.last, ok_bind, require_of hb, ok_bind, firstAmount_eq_ok.mpr h.first,
    ok_bind, hpay, ok_bind, hrun]
  rfl

theorem swapETHForExactTokens_runs (hset : Setting env w sender) (hd : w.timestamp ≤ deadline)
    (hcash : value ≤ w.native sender) (hq : getAmountsIn env w y path = .ok amounts)
    (h : Planned env w path amounts x y) (hcourse : Course env w dst path amounts)
    (hwraps : Wraps env w path x) (haccepts : ∀ w, ∃ w', env.receive sender w = .ok w')
    (hb : x ≤ value) :
    ∃ w', swapETHForExactTokens env w sender value y path dst deadline = .ok (amounts, w') := by
  obtain ⟨w₁, w₂, hpay, -, hrun, hleft⟩ := h.kashArrived hset hcourse hwraps hb
  have hp : (w.moveNative sender env.router value).pair = w.pair := rfl
  have hd' : (w.moveNative sender env.router value).timestamp ≤ deadline := hd
  obtain ⟨w', hrefund⟩ : ∃ w', refund env w₂ sender value x = .ok w' := by
    rw [refund]
    split
    · obtain ⟨w', hreceive⟩ := haccepts (w₂.moveNative env.router sender (value - x))
      refine ⟨w', ?_⟩
      rw [TransferHelper.safeTransferETH, orFail_eq_ok, require_of hleft, ok_bind,
        if_neg hset.sender_ne_WETH, if_neg hset.sender_ne]
      exact hreceive
    · exact ⟨w₂, rfl⟩
  refine ⟨w', ?_⟩
  rw [swapETHForExactTokens, payable, require_of hcash, ok_bind, ensure, require_of hd', ok_bind,
    pathAt_zero hwraps.first, ok_bind, require_of rfl, ok_bind, getAmountsIn_congr hp, hq, ok_bind,
    firstAmount_eq_ok.mpr h.first, ok_bind, require_of hb, ok_bind, hpay, ok_bind, hrun, ok_bind,
    hrefund]
  rfl

/-- Where the pools hold just their reserves, what is measured is what was quoted. -/
theorem Planned.measured (h : Planned env w path amounts x y)
    (hcourse : Course env w dst path amounts) (hlevel : Level env w 0 path)
    (hq : amountsOut env w x path = .ok amounts) (hpaid : Paid env w w₁ path x)
    (hrun : swapAmounts env dst w₁ amounts path = .ok w') (hb : bound ≤ y) :
    swapMeasured env w₁ path dst bound = .ok w' := by
  have hlevel₁ := hlevel.paid hcourse.distinct hpaid
  refine (swapMeasured_iff (fun t ht => (hcourse.plain t ht).1.standard) hcourse.distinct hlevel₁
    h.hop hcourse.dst_ne).mpr ⟨amounts, y, ?_, h.last, hb, hrun⟩
  exact (amountsOut_congr fun q _ => congrFun hpaid.pair q).trans hq

theorem amountsOut_of_get (hq : getAmountsOut env w x path = .ok amounts) :
    amountsOut env w x path = .ok amounts := by
  rw [getAmountsOut, bind_eq_ok] at hq
  obtain ⟨-, -, hq⟩ := hq
  exact hq

theorem swapExactTokensForTokensSupporting_runs (hd : w.timestamp ≤ deadline)
    (hq : getAmountsOut env w x path = .ok amounts) (h : Planned env w path amounts x y)
    (hcourse : Course env w dst path amounts) (hlevel : Level env w 0 path)
    (hfunds : Funds env w sender path x) (hb : bound ≤ y) :
    ∃ w', swapExactTokensForTokensSupportingFeeOnTransferTokens env w sender x bound path dst
      deadline = .ok ((), w') := by
  obtain ⟨w₁, w', hpay, hpaid, hrun⟩ := h.tokensForTokens hcourse hfunds
  refine ⟨w', ?_⟩
  rw [swapExactTokensForTokensSupportingFeeOnTransferTokens, ensure, require_of hd, ok_bind, hpay,
    ok_bind, h.measured hcourse hlevel (amountsOut_of_get hq) hpaid hrun hb]
  rfl

theorem swapExactETHForTokensSupporting_runs (hset : Setting env w sender)
    (hd : w.timestamp ≤ deadline) (hcash : x ≤ w.native sender)
    (hq : getAmountsOut env w x path = .ok amounts) (h : Planned env w path amounts x y)
    (hcourse : Course env w dst path amounts) (hlevel : Level env w 0 path)
    (hwraps : Wraps env w path x) (hb : bound ≤ y) :
    ∃ w', swapExactETHForTokensSupportingFeeOnTransferTokens env w sender x bound path dst
      deadline = .ok ((), w') := by
  obtain ⟨w₁, w', hpay, hpaid, hrun, -⟩ := h.kashArrived hset hcourse hwraps (le_refl x)
  have hpaid' : Paid env w w₁ path x := ⟨hpaid.pair, hpaid.balance, hpaid.conserved⟩
  have hd' : (w.moveNative sender env.router x).timestamp ≤ deadline := hd
  refine ⟨w', ?_⟩
  rw [swapExactETHForTokensSupportingFeeOnTransferTokens, payable, require_of hcash, ok_bind, ensure,
    require_of hd', ok_bind, pathAt_zero hwraps.first, ok_bind, require_of rfl, ok_bind, hpay, ok_bind,
    h.measured hcourse hlevel (amountsOut_of_get hq) hpaid' hrun hb]
  rfl

theorem swapExactTokensForETHSupporting_runs (hset : Setting env w sender)
    (hd : w.timestamp ≤ deadline) (hq : getAmountsOut env w x path = .ok amounts)
    (h : Planned env w path amounts x y) (hcourse : Course env w env.router path amounts)
    (hlevel : Level env w 0 path) (hfunds : Funds env w sender path x)
    (hunwraps : Unwraps env w dst path y) (hb : bound ≤ y) :
    ∃ w', swapExactTokensForETHSupportingFeeOnTransferTokens env w sender x bound path dst
      deadline = .ok ((), w') := by
  obtain ⟨w₁, w₂, hpay, hpaid, hrun, hrich, hout⟩ :=
    h.tokensForKash hcourse hfunds hunwraps hset.WETH_ne hset.sender_ne
  have hloop : swapSupportingFeeOnTransferTokens env env.router w₁ path = .ok w₂ := by
    refine (swapSupporting_iff (fun t ht => (hcourse.plain t ht).1.standard) hcourse.distinct
      (hlevel.paid hcourse.distinct hpaid)).mpr ⟨amounts, ?_, hrun⟩
    exact (amountsOut_congr fun q _ => congrFun hpaid.pair q).trans (amountsOut_of_get hq)
  obtain ⟨w', hout⟩ := hout _ (le_refl _)
  refine ⟨w', ?_⟩
  rw [swapExactTokensForETHSupportingFeeOnTransferTokens, ensure, require_of hd, ok_bind,
    lastToken_eq_ok.mpr hunwraps.last, ok_bind, require_of rfl, ok_bind, hpay, ok_bind, hloop,
    ok_bind]
  dsimp only
  rw [require_of (hb.trans hrich), ok_bind, hout]
  rfl

end Swaps

end ArkSwap
