import ArkSwap.RouterSwaps
import ArkSwap.Slippage
import ArkSwap.SwapBest
import ArkSwap.SwapQuotes

/-! The swap form: the bounds it derives from a route, the call it submits, and when
that call protects the trade. -/

namespace ArkSwap

open Checked ArkSwapLibrary

namespace Sdk

def PRICE_IMPACT_WARN_BPS : Int := 100

def PRICE_IMPACT_HIGH_BPS : Int := 300

def PRICE_IMPACT_BLOCK_BPS : Int := 1500

inductive ImpactSeverity where
  | none
  | warn
  | high
  | severe
  deriving DecidableEq

def impactSeverity (bps : Int) : ImpactSeverity :=
  if bps ≥ PRICE_IMPACT_BLOCK_BPS then .severe
  else if bps ≥ PRICE_IMPACT_HIGH_BPS then .high
  else if bps ≥ PRICE_IMPACT_WARN_BPS then .warn
  else .none

end Sdk

namespace UseSwapRoute

open Web

variable {env : Env} {viem : Viem env} {wkashAddress factory : Option Text} {hubs : List Token}
  {tokenIn tokenOut : Token} {cs : List Candidate} {amount : Option Int} {side : SwapSide}
  {answer : Option (Contract → Result)} {route : SwapRoute} {path : List Text}

/-- A path from the address one token is traded under to that of another. -/
def Leads (wkashAddress : Option Text) (tokenIn tokenOut : Token) (path : List Text) : Prop :=
  ∃ inAddr outAddr mids, routedAddress wkashAddress tokenIn = some inAddr ∧
    routedAddress wkashAddress tokenOut = some outAddr ∧ path = inAddr :: (mids ++ [outAddr])

theorem candidates_lead (h : candidates wkashAddress hubs tokenIn tokenOut = .ok cs) :
    ∀ c ∈ cs, Leads wkashAddress tokenIn tokenOut c.path := by
  rw [candidates, bind_eq_ok] at h
  obtain ⟨hs, -, h⟩ := h
  split at h
  · rename_i inAddr outAddr hin hout
    obtain rfl := Except.ok.inj h
    intro c hc
    rw [candidatesFrom] at hc
    split at hc
    · cases hc
    · simp only [List.cons_append, List.mem_cons, List.mem_append, List.mem_map, List.mem_flatMap,
        List.mem_filterMap, Option.ite_none_left_eq_some, Option.some.injEq] at hc
      obtain rfl | ⟨g, -, rfl⟩ | ⟨g, -, g', -, -, rfl⟩ := hc
      · exact ⟨inAddr, outAddr, [], hin, hout, rfl⟩
      · exact ⟨inAddr, outAddr, [g.addr], hin, hout, rfl⟩
      · exact ⟨inAddr, outAddr, [g.addr, g'.addr], hin, hout, rfl⟩
  · obtain rfl := Except.ok.inj h
    intro c hc
    cases hc

/-- A candidate that is taken over has a quote; otherwise the best so far stays. -/
theorem consider_some {f : Text} {pools : Pools} {x : Int} {best : Option SwapRoute} {c : Candidate}
    (hquote : ∀ q, (∃ hops, quote side hops pools x = .ok (some q)) → 0 < q.amountIn ∧ 0 < q.amountOut)
    (hc : Leads wkashAddress tokenIn tokenOut c.path)
    (hbest : ∀ r, best = some r → (0 < r.amountIn ∧ 0 < r.amountOut) ∧
      Leads wkashAddress tokenIn tokenOut r.path)
    (h : consider viem f pools side x best c = .ok (some route)) :
    (0 < route.amountIn ∧ 0 < route.amountOut) ∧ Leads wkashAddress tokenIn tokenOut route.path := by
  rw [consider, bind_eq_ok] at h
  obtain ⟨usable, -, h⟩ := h
  split at h
  · exact hbest route (Except.ok.inj h)
  · rename_i hops
    split at h
    · rename_i q hq
      have hnext := Except.ok.inj h
      split at hnext
      · obtain rfl := Option.some.inj hnext
        exact ⟨hquote q ⟨hops, hq⟩, hc⟩
      · exact hbest route hnext
    · exact hbest route (Except.ok.inj h)

/-- A route that the hook returns leads between the tokens, for positive amounts. -/
theorem useSwapRoute_some (h : useSwapRoute viem wkashAddress factory hubs tokenIn tokenOut amount
    side answer = .ok (some route)) :
    (0 < route.amountIn ∧ 0 < route.amountOut) ∧ Leads wkashAddress tokenIn tokenOut route.path := by
  rw [useSwapRoute, bind_eq_ok] at h
  obtain ⟨cs, hcs, h⟩ := h
  dsimp only at h
  rcases factory with _ | f
  · cases amount <;> cases h
  · rw [bind_eq_ok] at h
    obtain ⟨keys, -, h⟩ := h
    rcases amount with _ | x
    · cases h
    · dsimp only at h
      split at h
      · rename_i hx
        refine foldlM_inv (fun best => ∀ r, best = some r → (0 < r.amountIn ∧ 0 < r.amountOut) ∧
          Leads wkashAddress tokenIn tokenOut r.path) (fun c hc best next hbest hstep r hr => ?_)
          (fun r hr => by cases hr) h route rfl
        subst hr
        refine consider_some (fun q hq => ?_) (candidates_lead hcs c hc) hbest hstep
        obtain ⟨_, hquote⟩ := hq
        exact quote_pos hx hquote
      · cases h

end UseSwapRoute

namespace SwapCard

open Web UseSwapRoute

/-- What the form passes to the wallet: the function of the router and its arguments. -/
inductive SwapCall where
  | swapExactETHForTokens (amountOutMin : Int) (path : List Text) (dst : Text) (deadline value : Int)
  | swapExactTokensForETH (amountIn amountOutMin : Int) (path : List Text) (dst : Text)
      (deadline : Int)
  | swapExactTokensForTokens (amountIn amountOutMin : Int) (path : List Text) (dst : Text)
      (deadline : Int)
  | swapExactETHForTokensSupportingFeeOnTransferTokens (amountOutMin : Int) (path : List Text)
      (dst : Text) (deadline value : Int)
  | swapExactTokensForETHSupportingFeeOnTransferTokens (amountIn amountOutMin : Int)
      (path : List Text) (dst : Text) (deadline : Int)
  | swapExactTokensForTokensSupportingFeeOnTransferTokens (amountIn amountOutMin : Int)
      (path : List Text) (dst : Text) (deadline : Int)
  | swapETHForExactTokens (amountOut : Int) (path : List Text) (dst : Text) (deadline value : Int)
  | swapTokensForExactETH (amountOut amountInMax : Int) (path : List Text) (dst : Text)
      (deadline : Int)
  | swapTokensForExactTokens (amountOut amountInMax : Int) (path : List Text) (dst : Text)
      (deadline : Int)
  deriving DecidableEq

structure SwapQuote where
  amountIn : Int
  amountOut : Int
  minReceived : Int
  maxSold : Int
  impactBps : Int

/-- The state of the form when its button is pressed. -/
structure Card where
  tokenIn : Token
  tokenOut : Token
  side : SwapSide
  route : Option SwapRoute
  settings : Settings
  routerAddress : Option Text
  address : Option Text
  isConnected : Bool
  balanceIn : Option Int
  allowance : Int
  isApproving : Bool
  isPending : Bool
  isLoading : Bool

def Card.fotConflict (c : Card) : Bool := c.settings.feeOnTransfer && c.side = .exactOut

def Card.quote (c : Card) : Option SwapQuote :=
  match c.route with
  | none => none
  | some route =>
      if c.fotConflict then none
      else some
        { amountIn := route.amountIn
          amountOut := route.amountOut
          minReceived := match c.side with
            | .exactIn => Sdk.minimumReceived route.amountOut c.settings.slippageBps
            | .exactOut => route.amountOut
          maxSold := match c.side with
            | .exactOut => Sdk.maximumSold route.amountIn c.settings.slippageBps
            | .exactIn => route.amountIn
          impactBps := route.impactBps }

/-- An allowance is asked for when it falls short of what may be sold. -/
def Card.needsApproval (c : Card) : Bool :=
  !c.tokenIn.isNative && c.tokenIn.address.isSome && c.routerAddress.isSome &&
    match c.quote with
    | some quote => quote.maxSold > 0 ∧ c.allowance < quote.maxSold
    | none => false

/-- Native input is sent up to the cap, of which the router returns the rest. -/
def Card.insufficientBalance (c : Card) : Bool :=
  match c.quote, c.balanceIn with
  | some quote, some balance =>
      (if c.tokenIn.isNative then quote.maxSold else quote.amountIn) > balance
  | _, _ => false

def Card.severity (c : Card) : Sdk.ImpactSeverity :=
  match c.quote with
  | some quote => Sdk.impactSeverity quote.impactBps
  | none => .none

def Card.blocked (c : Card) : Except String Bool :=
  if !c.isConnected then return true
  else do
    if ← sameToken c.tokenIn c.tokenOut then return true
    else return c.quote.isNone || c.insufficientBalance || c.severity = .severe || c.isApproving ||
      c.isPending || c.isLoading

def exactInCall (nativeIn nativeOut feeOnTransfer : Bool) (amountIn amountOutMin : Int)
    (path : List Text) (address : Text) (deadline : Int) : SwapCall :=
  if nativeIn then
    if feeOnTransfer then
      .swapExactETHForTokensSupportingFeeOnTransferTokens amountOutMin path address deadline amountIn
    else .swapExactETHForTokens amountOutMin path address deadline amountIn
  else if nativeOut then
    if feeOnTransfer then
      .swapExactTokensForETHSupportingFeeOnTransferTokens amountIn amountOutMin path address deadline
    else .swapExactTokensForETH amountIn amountOutMin path address deadline
  else if feeOnTransfer then
    .swapExactTokensForTokensSupportingFeeOnTransferTokens amountIn amountOutMin path address deadline
  else .swapExactTokensForTokens amountIn amountOutMin path address deadline

def exactOutCall (nativeIn nativeOut : Bool) (amountOut amountInMax : Int) (path : List Text)
    (address : Text) (deadline : Int) : SwapCall :=
  if nativeIn then .swapETHForExactTokens amountOut path address deadline amountInMax
  else if nativeOut then .swapTokensForExactETH amountOut amountInMax path address deadline
  else .swapTokensForExactTokens amountOut amountInMax path address deadline

def Card.call (c : Card) (quote : SwapQuote) (path : List Text) (address : Text) (deadline : Int) :
    SwapCall :=
  match c.side with
  | .exactIn => exactInCall c.tokenIn.isNative c.tokenOut.isNative c.settings.feeOnTransfer
      quote.amountIn quote.minReceived path address deadline
  | .exactOut => exactOutCall c.tokenIn.isNative c.tokenOut.isNative quote.amountOut quote.maxSold
      path address deadline

/-- `deadlineFromNow` reads the clock, and throws on a fraction of a second. -/
def Card.submit (c : Card) (deadlineFromNow : ℚ → Except String Int) :
    Except String (Option SwapCall) :=
  match c.routerAddress, c.address, c.quote, c.route with
  | some _, some address, some quote, some route => do
      let deadline ← deadlineFromNow c.settings.deadlineMinutes
      return some (c.call quote route.path address deadline)
  | _, _, _, _ => return none

/-- What pressing the button submits: nothing while it is disabled or asks for an
approval. -/
def Card.press (c : Card) (deadlineFromNow : ℚ → Except String Int) :
    Except String (Option SwapCall) := do
  let blocked ← c.blocked
  if c.needsApproval then return none
  else if blocked then return none
  else c.submit deadlineFromNow

namespace SwapCall

def amountOutMin : SwapCall → Option Int
  | swapExactETHForTokens amountOutMin _ _ _ _ => some amountOutMin
  | swapExactTokensForETH _ amountOutMin _ _ _ => some amountOutMin
  | swapExactTokensForTokens _ amountOutMin _ _ _ => some amountOutMin
  | swapExactETHForTokensSupportingFeeOnTransferTokens amountOutMin _ _ _ _ => some amountOutMin
  | swapExactTokensForETHSupportingFeeOnTransferTokens _ amountOutMin _ _ _ => some amountOutMin
  | swapExactTokensForTokensSupportingFeeOnTransferTokens _ amountOutMin _ _ _ => some amountOutMin
  | _ => none

/-- The most that can be charged; of native KASH that is what is sent along. -/
def amountInMax : SwapCall → Option Int
  | swapETHForExactTokens _ _ _ _ value => some value
  | swapTokensForExactETH _ amountInMax _ _ _ => some amountInMax
  | swapTokensForExactTokens _ amountInMax _ _ _ => some amountInMax
  | _ => none

def deadline : SwapCall → Int
  | swapExactETHForTokens _ _ _ deadline _ => deadline
  | swapExactTokensForETH _ _ _ _ deadline => deadline
  | swapExactTokensForTokens _ _ _ _ deadline => deadline
  | swapExactETHForTokensSupportingFeeOnTransferTokens _ _ _ deadline _ => deadline
  | swapExactTokensForETHSupportingFeeOnTransferTokens _ _ _ _ deadline => deadline
  | swapExactTokensForTokensSupportingFeeOnTransferTokens _ _ _ _ deadline => deadline
  | swapETHForExactTokens _ _ _ deadline _ => deadline
  | swapTokensForExactETH _ _ _ _ deadline => deadline
  | swapTokensForExactTokens _ _ _ _ deadline => deadline

def value : SwapCall → Int
  | swapExactETHForTokens _ _ _ _ value => value
  | swapExactETHForTokensSupportingFeeOnTransferTokens _ _ _ _ value => value
  | swapETHForExactTokens _ _ _ _ value => value
  | _ => 0

/-- The call as the router receives it, with the addresses that its texts spell. -/
def toRouter (path : List Address) (dst : Address) : SwapCall → RouterCall
  | swapExactETHForTokens amountOutMin _ _ deadline value =>
      .swapExactETHForTokens value.toNat amountOutMin.toNat path dst deadline.toNat
  | swapExactTokensForETH amountIn amountOutMin _ _ deadline =>
      .swapExactTokensForETH amountIn.toNat amountOutMin.toNat path dst deadline.toNat
  | swapExactTokensForTokens amountIn amountOutMin _ _ deadline =>
      .swapExactTokensForTokens amountIn.toNat amountOutMin.toNat path dst deadline.toNat
  | swapExactETHForTokensSupportingFeeOnTransferTokens amountOutMin _ _ deadline value =>
      .swapExactETHForTokensSupportingFeeOnTransferTokens value.toNat amountOutMin.toNat path dst
        deadline.toNat
  | swapExactTokensForETHSupportingFeeOnTransferTokens amountIn amountOutMin _ _ deadline =>
      .swapExactTokensForETHSupportingFeeOnTransferTokens amountIn.toNat amountOutMin.toNat path dst
        deadline.toNat
  | swapExactTokensForTokensSupportingFeeOnTransferTokens amountIn amountOutMin _ _ deadline =>
      .swapExactTokensForTokensSupportingFeeOnTransferTokens amountIn.toNat amountOutMin.toNat path
        dst deadline.toNat
  | swapETHForExactTokens amountOut _ _ deadline value =>
      .swapETHForExactTokens value.toNat amountOut.toNat path dst deadline.toNat
  | swapTokensForExactETH amountOut amountInMax _ _ deadline =>
      .swapTokensForExactETH amountOut.toNat amountInMax.toNat path dst deadline.toNat
  | swapTokensForExactTokens amountOut amountInMax _ _ deadline =>
      .swapTokensForExactTokens amountOut.toNat amountInMax.toNat path dst deadline.toNat

end SwapCall

/-- The least to receive is positive and no more than was quoted, the most to sell
no less than was quoted. -/
def Bounded (side : SwapSide) (route : SwapRoute) (call : SwapCall) : Prop :=
  match side with
  | .exactIn => ∃ m, call.amountOutMin = some m ∧ 0 < m ∧ m ≤ route.amountOut
  | .exactOut => ∃ m, call.amountInMax = some m ∧ route.amountIn ≤ m

section Bounds

variable {c : Card} {call : SwapCall} {deadlineFromNow : ℚ → Except String Int} {route : SwapRoute}
  {quote : SwapQuote} {path : List Text} {address : Text} {deadline : Int}

theorem press_eq_some (h : c.press deadlineFromNow = .ok (some call)) :
    ∃ quote route address deadline, c.quote = some quote ∧ c.route = some route ∧
      c.address = some address ∧ deadlineFromNow c.settings.deadlineMinutes = .ok deadline ∧
      call = c.call quote route.path address deadline := by
  rw [Card.press, bind_eq_ok] at h
  obtain ⟨blocked, -, h⟩ := h
  split at h
  · cases h
  · split at h
    · cases h
    · rw [Card.submit] at h
      split at h
      · rename_i _ _ address quote route _ haddress hquote hroute
        rw [bind_eq_ok] at h
        obtain ⟨deadline, hdeadline, h⟩ := h
        exact ⟨quote, route, address, deadline, hquote, hroute, haddress, hdeadline,
          (Option.some.inj (Except.ok.inj h)).symm⟩
      · cases h

theorem quote_eq_some (hroute : c.route = some route) (h : c.quote = some quote) :
    c.fotConflict = false ∧ quote.amountIn = route.amountIn ∧ quote.amountOut = route.amountOut ∧
      (c.side = .exactIn →
        quote.minReceived = Sdk.minimumReceived route.amountOut c.settings.slippageBps) ∧
      (c.side = .exactOut →
        quote.maxSold = Sdk.maximumSold route.amountIn c.settings.slippageBps) := by
  rw [Card.quote, hroute] at h
  dsimp only at h
  split at h
  · cases h
  · rename_i hconflict
    obtain rfl := Option.some.inj h
    refine ⟨Bool.eq_false_iff.mpr hconflict, rfl, rfl, fun hside => ?_, fun hside => ?_⟩ <;>
      rw [hside]

theorem exactInCall_amountOutMin {nativeIn nativeOut fot : Bool} {amountIn amountOutMin : Int} :
    (exactInCall nativeIn nativeOut fot amountIn amountOutMin path address deadline).amountOutMin =
      some amountOutMin := by
  cases nativeIn <;> cases nativeOut <;> cases fot <;> rfl

theorem exactOutCall_amountInMax {nativeIn nativeOut : Bool} {amountOut amountInMax : Int} :
    (exactOutCall nativeIn nativeOut amountOut amountInMax path address deadline).amountInMax =
      some amountInMax := by
  cases nativeIn <;> cases nativeOut <;> rfl

theorem call_bounded_iff (hs : c.settings.Tolerant) (hroute : c.route = some route)
    (hin : 0 < route.amountIn) (hout : 0 < route.amountOut) (hquote : c.quote = some quote) :
    Bounded c.side route (c.call quote path address deadline) ↔
      c.side = .exactOut ∨ 2 ≤ route.amountOut := by
  obtain ⟨-, -, -, hmin, hmax⟩ := quote_eq_some hroute hquote
  unfold Card.call Bounded
  rcases hside : c.side with _ | _
  · simp only [exactInCall_amountOutMin, hmin hside, Option.some.injEq, exists_eq_left',
      minimumReceived_pos_iff hout hs, reduceCtorEq, false_or, and_iff_left_iff_imp]
    intro _
    exact minimumReceived_le hout.le ⟨zero_le_one.trans hs.1, hs.2⟩
  · simp only [exactOutCall_amountInMax, hmax hside, Option.some.injEq, exists_eq_left', true_or,
      iff_true]
    exact le_maximumSold hin.le (zero_le_one.trans hs.1)

end Bounds

/-- What the router computes from the amount that is fixed. -/
def routerAmounts (env : Env) (w : World) (side : SwapSide) (route : SwapRoute)
    (path : List Address) : Except String (List Nat) :=
  match side with
  | .exactIn => ArkSwapRouter.getAmountsOut env w route.amountIn.toNat path
  | .exactOut => ArkSwapRouter.getAmountsIn env w route.amountOut.toNat path

/-- The form's path and its hops' pools, at reserves for which the quote of the route
still holds. -/
structure Unchanged (env : Env) (w : World) (side : SwapSide) (route : SwapRoute)
    (path : List Address) : Prop where
  spelled : List.Forall₂ Spells route.path path
  quoted : ∃ pools hops rs amount, Follows env w pools hops path rs ∧
    quote side hops pools amount = .ok (some route.toQuote)

/-- What a trade needs besides its bound: a path that can carry it, an account that can
pay, and a router that can wrap and pay out native KASH where the tokens ask for it. -/
structure Tradable (env : Env) (w : World) (c : Card) (route : SwapRoute) (sender : Address)
    (path : List Address) (amounts : List Nat) (value deadline : Int) : Prop where
  setting : Setting env w sender
  unexpired : (w.timestamp : Int) ≤ deadline
  computed : routerAmounts env w c.side route path = .ok amounts
  course : Course env w (if !c.tokenIn.isNative && c.tokenOut.isNative then env.router else sender)
    path amounts
  outside : env.router ∉ poolsOf env path
  level : c.settings.feeOnTransfer = true → Level env w 0 path
  funds : c.tokenIn.isNative = false → Funds env w sender path route.amountIn.toNat
  cash : c.tokenIn.isNative = true → value.toNat ≤ w.native sender
  room : c.tokenIn.isNative = true →
    (w.token env.WETH).totalSupply + route.amountIn.toNat < Uint.size
  backed : c.tokenOut.isNative = true →
    w.balanceOf env.WETH env.router + route.amountOut.toNat ≤ w.native env.WETH
  accepts : ∀ w, ∃ w', env.receive sender w = .ok w'

/-- At unchanged reserves the router carries the call out. -/
def Accepted (env : Env) (c : Card) (route : SwapRoute) (call : SwapCall) : Prop :=
  ∀ w sender path amounts, Unchanged env w c.side route path →
    Tradable env w c route sender path amounts call.value call.deadline →
    ∃ w', (call.toRouter path sender).exec env w sender = .ok w'

section Acceptance

variable {env : Env} {w : World} {c : Card} {route : SwapRoute} {quote : SwapQuote}
  {sender : Address} {path : List Address} {amounts : List Nat} {address : Text}
  {value deadline : Int} {wkashAddress : Option Text}

theorem exactIn_amounts (hquoted : Unchanged env w .exactIn route path)
    (hout : 0 < route.amountOut) (hin : 0 < route.amountIn)
    (hq : getAmountsOut env w route.amountIn.toNat path = .ok amounts) :
    amounts.getLast? = some route.amountOut.toNat := by
  obtain ⟨-, pools, hops, rs, amount, hfollows, hquote⟩ := hquoted
  obtain ⟨v, hlast, halong⟩ := amountsOut_along hfollows (amountsOut_of_get hq)
  have hamount : route.amountIn = amount := by
    rw [UseSwapRoute.quote, quoteExactIn, bind_eq_ok] at hquote
    obtain ⟨⟨y, num, den⟩, -, hquote⟩ := hquote
    dsimp only at hquote
    split at hquote
    · cases hquote
    · exact congrArg Quote.amountIn (Option.some.inj (Except.ok.inj hquote)).symm
  have hx : amount = (route.amountIn.toNat : Int) := by omega
  have hy : route.amountOut = (route.amountOut.toNat : Int) := by omega
  rw [hx] at hquote
  have hquoted := (quoteExactIn_iff hfollows (by omega)).mp ⟨route.toQuote, hquote, hy⟩
  rw [hlast, ← halong, hquoted]

theorem exactOut_amounts (hquoted : Unchanged env w .exactOut route path)
    (hout : 0 < route.amountOut) (hin : 0 < route.amountIn)
    (hq : getAmountsIn env w route.amountOut.toNat path = .ok amounts) :
    amounts.head? = some route.amountIn.toNat := by
  obtain ⟨-, pools, hops, rs, amount, hfollows, hquote⟩ := hquoted
  have hamount : route.amountOut = amount := by
    rw [UseSwapRoute.quote, quoteExactOut, bind_eq_ok] at hquote
    obtain ⟨⟨x, num, den⟩, -, hquote⟩ := hquote
    dsimp only at hquote
    split at hquote
    · cases hquote
    · exact congrArg Quote.amountOut (Option.some.inj (Except.ok.inj hquote)).symm
  have hy : amount = (route.amountOut.toNat : Int) := by omega
  have hx : route.amountIn = (route.amountIn.toNat : Int) := by omega
  simp only [getAmountsIn, bind_eq_ok, require_eq_ok, pure_eq_ok, Except.ok.injEq] at hq
  obtain ⟨_, hlen, ⟨v, ys⟩, hq, rfl⟩ := hq
  have hne : hops ≠ [] := by
    rintro rfl
    cases hfollows
    simp at hlen
  rw [hy] at hquote
  have hneeded := (quoteExactOut_iff hfollows hne).mp ⟨route.toQuote, hquote, hx⟩
  exact ((amountsIn_iff hfollows).mp ⟨ys, hq⟩).symm.trans hneeded

theorem forall₂_getLast {α β : Type} {R : α → β → Prop} {xs : List α} {x : α} {ys : List β}
    (h : List.Forall₂ R (xs ++ [x]) ys) : ∃ y, ys.getLast? = some y ∧ R x y := by
  have hreverse := List.forall₂_reverse_iff.mpr h
  rw [List.reverse_append, List.reverse_singleton, List.singleton_append] at hreverse
  rcases hys : ys.reverse with _ | ⟨y, rest⟩
  · rw [hys] at hreverse
    cases hreverse
  · rw [hys] at hreverse
    rw [List.forall₂_cons] at hreverse
    exact ⟨y, by rw [← List.head?_reverse, hys, List.head?_cons], hreverse.1⟩

/-- Where a token is native, the path has wrapped KASH in its place. -/
theorem leads_ends {tokenIn tokenOut : Token} {texts : List Text}
    (h : Leads wkashAddress tokenIn tokenOut texts)
    (hwkash : ∀ x, wkashAddress = some x → Spells x env.WETH) (hs : List.Forall₂ Spells texts path) :
    (tokenIn.isNative = true → path.head? = some env.WETH) ∧
      (tokenOut.isNative = true → path.getLast? = some env.WETH) := by
  obtain ⟨inAddr, outAddr, mids, hin, hout, rfl⟩ := h
  have hunique : ∀ {x : Text} {a b : Address}, Spells x a → Spells x b → a = b := fun ha hb =>
    (ha.eq_iff hb).mp rfl
  have happend : List.Forall₂ Spells ((inAddr :: mids) ++ [outAddr]) path := hs
  obtain ⟨last, hlast, hspells⟩ := forall₂_getLast happend
  rw [routedAddress] at hin hout
  constructor
  · intro hnative
    rw [if_pos hnative] at hin
    cases hs with
    | cons hfirst hrest => rw [List.head?_cons, hunique hfirst (hwkash _ hin)]
  · intro hnative
    rw [if_pos hnative] at hout
    rw [hlast, hunique hspells (hwkash _ hout)]

/-- The trade as the router plans it, from the quoted input to the quoted output. -/
theorem Tradable.planned (h : Tradable env w c route sender path amounts value deadline)
    (hquoted : Unchanged env w c.side route path) (hin : 0 < route.amountIn)
    (hout : 0 < route.amountOut) :
    Planned env w path amounts route.amountIn.toNat route.amountOut.toNat := by
  have hcomputed := h.computed
  unfold routerAmounts at hcomputed
  rcases hside : c.side with _ | _ <;> rw [hside] at hcomputed hquoted
  · exact planned_of_out hcomputed h.course.ready (exactIn_amounts hquoted hout hin hcomputed)
      (by omega)
  · exact planned_of_in hcomputed h.course.ready (exactOut_amounts hquoted hout hin hcomputed)

theorem Tradable.wraps (h : Tradable env w c route sender path amounts value deadline)
    (hends : c.tokenIn.isNative = true → path.head? = some env.WETH)
    (hnative : c.tokenIn.isNative = true) : Wraps env w path route.amountIn.toNat :=
  ⟨hends hnative, h.outside, h.room hnative⟩

theorem Tradable.unwraps (h : Tradable env w c route sender path amounts value deadline)
    (hends : c.tokenOut.isNative = true → path.getLast? = some env.WETH)
    (hnative : c.tokenOut.isNative = true) : Unwraps env w sender path route.amountOut.toNat :=
  ⟨hends hnative, h.backed hnative, h.setting.sender_ne, h.setting.sender_ne_WETH, h.accepts⟩

theorem Tradable.course_to (h : Tradable env w c route sender path amounts value deadline) :
    (c.tokenIn.isNative = false → c.tokenOut.isNative = true →
      Course env w env.router path amounts) ∧
    (c.tokenIn.isNative = true ∨ c.tokenOut.isNative = false → Course env w sender path amounts) := by
  have hcourse := h.course
  constructor
  · intro hi ho
    rwa [hi, ho] at hcourse
  · rintro (hi | ho)
    · rwa [hi] at hcourse
    · rwa [ho, Bool.and_false] at hcourse

variable {minReceived maxSold : Int}

theorem exactIn_accepted (h : Tradable env w c route sender path amounts value deadline)
    (hplan : Planned env w path amounts route.amountIn.toNat route.amountOut.toNat)
    (hq : getAmountsOut env w route.amountIn.toNat path = .ok amounts)
    (hfirst : c.tokenIn.isNative = true → path.head? = some env.WETH)
    (hlast : c.tokenOut.isNative = true → path.getLast? = some env.WETH)
    (hcash : c.tokenIn.isNative = true → route.amountIn.toNat ≤ w.native sender)
    (hmin : minReceived ≤ route.amountOut) {texts : List Text} :
    ∃ w', ((exactInCall c.tokenIn.isNative c.tokenOut.isNative c.settings.feeOnTransfer
      route.amountIn minReceived texts address deadline).toRouter path sender).exec env w sender =
        .ok w' := by
  have hd : w.timestamp ≤ deadline.toNat := by
    have := h.unexpired
    omega
  have hb : minReceived.toNat ≤ route.amountOut.toNat := by omega
  obtain ⟨hrouter, haccount⟩ := h.course_to
  rcases hi : c.tokenIn.isNative with _ | _
  · rcases ho : c.tokenOut.isNative with _ | _
    · have hcourse := haccount (.inr ho)
      have hfunds := h.funds hi
      rcases hfot : c.settings.feeOnTransfer with _ | _
      · obtain ⟨w', hrun⟩ := swapExactTokensForTokens_runs hd hq hplan hcourse hfunds hb
        exact ⟨w', by simp [exactInCall, SwapCall.toRouter, RouterCall.exec, hrun]⟩
      · obtain ⟨w', hrun⟩ := swapExactTokensForTokensSupporting_runs hd hq hplan hcourse
          (h.level hfot) hfunds hb
        exact ⟨w', by simp [exactInCall, SwapCall.toRouter, RouterCall.exec, hrun]⟩
    · have hcourse := hrouter hi ho
      have hfunds := h.funds hi
      rcases hfot : c.settings.feeOnTransfer with _ | _
      · obtain ⟨w', hrun⟩ := swapExactTokensForETH_runs h.setting hd hq hplan hcourse hfunds
          (h.unwraps hlast ho) hb
        exact ⟨w', by simp [exactInCall, SwapCall.toRouter, RouterCall.exec, hrun]⟩
      · obtain ⟨w', hrun⟩ := swapExactTokensForETHSupporting_runs h.setting hd hq hplan hcourse
          (h.level hfot) hfunds (h.unwraps hlast ho) hb
        exact ⟨w', by simp [exactInCall, SwapCall.toRouter, RouterCall.exec, hrun]⟩
  · have hcourse := haccount (.inl hi)
    rcases hfot : c.settings.feeOnTransfer with _ | _
    · obtain ⟨w', hrun⟩ := swapExactETHForTokens_runs h.setting hd (hcash hi) hq hplan hcourse
        (h.wraps hfirst hi) hb
      exact ⟨w', by simp [exactInCall, SwapCall.toRouter, RouterCall.exec, hrun]⟩
    · obtain ⟨w', hrun⟩ := swapExactETHForTokensSupporting_runs h.setting hd (hcash hi) hq hplan
        hcourse (h.level hfot) (h.wraps hfirst hi) hb
      exact ⟨w', by simp [exactInCall, SwapCall.toRouter, RouterCall.exec, hrun]⟩

theorem exactOut_accepted (h : Tradable env w c route sender path amounts value deadline)
    (hplan : Planned env w path amounts route.amountIn.toNat route.amountOut.toNat)
    (hq : getAmountsIn env w route.amountOut.toNat path = .ok amounts)
    (hfirst : c.tokenIn.isNative = true → path.head? = some env.WETH)
    (hlast : c.tokenOut.isNative = true → path.getLast? = some env.WETH)
    (hcash : c.tokenIn.isNative = true → maxSold.toNat ≤ w.native sender)
    (hmax : route.amountIn ≤ maxSold) {texts : List Text} :
    ∃ w', ((exactOutCall c.tokenIn.isNative c.tokenOut.isNative route.amountOut maxSold texts address
      deadline).toRouter path sender).exec env w sender = .ok w' := by
  have hd : w.timestamp ≤ deadline.toNat := by
    have := h.unexpired
    omega
  have hb : route.amountIn.toNat ≤ maxSold.toNat := by omega
  obtain ⟨hrouter, haccount⟩ := h.course_to
  rcases hi : c.tokenIn.isNative with _ | _
  · have hfunds := h.funds hi
    rcases ho : c.tokenOut.isNative with _ | _
    · obtain ⟨w', hrun⟩ := swapTokensForExactTokens_runs hd hq hplan (haccount (.inr ho)) hfunds hb
      exact ⟨w', by simp [exactOutCall, SwapCall.toRouter, RouterCall.exec, hrun]⟩
    · obtain ⟨w', hrun⟩ := swapTokensForExactETH_runs h.setting hd hq hplan (hrouter hi ho) hfunds
        (h.unwraps hlast ho) hb
      exact ⟨w', by simp [exactOutCall, SwapCall.toRouter, RouterCall.exec, hrun]⟩
  · obtain ⟨w', hrun⟩ := swapETHForExactTokens_runs h.setting hd (hcash hi) hq hplan
      (haccount (.inl hi)) (h.wraps hfirst hi) h.accepts hb
    exact ⟨w', by simp [exactOutCall, SwapCall.toRouter, RouterCall.exec, hrun]⟩

theorem exactInCall_value {nativeIn nativeOut fot : Bool} {amountIn : Int} {texts : List Text}
    (h : nativeIn = true) :
    (exactInCall nativeIn nativeOut fot amountIn minReceived texts address deadline).value =
      amountIn := by
  subst h
  cases fot <;> rfl

theorem exactOutCall_value {nativeIn nativeOut : Bool} {amountOut : Int} {texts : List Text}
    (h : nativeIn = true) :
    (exactOutCall nativeIn nativeOut amountOut maxSold texts address deadline).value = maxSold := by
  subst h
  rfl

theorem call_deadline {texts : List Text} :
    (c.call quote texts address deadline).deadline = deadline := by
  unfold Card.call
  cases c.side
  · dsimp only
    cases c.tokenIn.isNative <;> cases c.tokenOut.isNative <;> cases c.settings.feeOnTransfer <;> rfl
  · dsimp only
    cases c.tokenIn.isNative <;> cases c.tokenOut.isNative <;> rfl

theorem call_accepted (hs : c.settings.Tolerant) (hroute : c.route = some route)
    (hwkash : ∀ x, wkashAddress = some x → Spells x env.WETH)
    (hleads : Leads wkashAddress c.tokenIn c.tokenOut route.path)
    (hin : 0 < route.amountIn) (hout : 0 < route.amountOut) (hquote : c.quote = some quote) :
    Accepted env c route (c.call quote route.path address deadline) := by
  intro w sender path amounts hquoted htradable
  rw [call_deadline] at htradable
  obtain ⟨-, hamountIn, hamountOut, hmin, hmax⟩ := quote_eq_some hroute hquote
  obtain ⟨hfirst, hlast⟩ := leads_ends hleads hwkash hquoted.spelled
  have hplan := htradable.planned hquoted hin hout
  have hcash := htradable.cash
  have hcomputed := htradable.computed
  unfold routerAmounts at hcomputed
  unfold Card.call at hcash ⊢
  rcases hside : c.side with _ | _ <;> rw [hside] at hcomputed hcash <;> dsimp only at hcash ⊢
  · rw [hmin hside, hamountIn] at hcash ⊢
    refine exactIn_accepted htradable hplan hcomputed hfirst hlast (fun hnative => ?_)
      (minimumReceived_le hout.le ⟨zero_le_one.trans hs.1, hs.2⟩)
    have hvalue := hcash hnative
    rwa [exactInCall_value hnative] at hvalue
  · rw [hmax hside, hamountOut] at hcash ⊢
    refine exactOut_accepted htradable hplan hcomputed hfirst hlast (fun hnative => ?_)
      (le_maximumSold hin.le (zero_le_one.trans hs.1))
    have hvalue := hcash hnative
    rwa [exactOutCall_value hnative] at hvalue

end Acceptance

/-- The call protects the trade, and does not stand in its way. -/
def Protected (env : Env) (c : Card) (route : SwapRoute) (call : SwapCall) : Prop :=
  Bounded c.side route call ∧ call.amountOutMin ≠ some 0 ∧ Accepted env c route call

theorem Bounded.amountOutMin_ne {c : Card} {quote : SwapQuote} {route : SwapRoute} {path : List Text}
    {address : Text} {deadline : Int}
    (h : Bounded c.side route (c.call quote path address deadline)) :
    (c.call quote path address deadline).amountOutMin ≠ some 0 := by
  unfold Card.call Bounded at *
  rcases hside : c.side with _ | _ <;> rw [hside] at h <;> dsimp only at h ⊢
  · obtain ⟨m, hm, hpos, -⟩ := h
    rw [hm]
    intro hzero
    exact hpos.ne' (Option.some.inj hzero)
  · cases c.tokenIn.isNative <;> cases c.tokenOut.isNative <;>
      simp [exactOutCall, SwapCall.amountOutMin]

/-- What the form submits is bounded on both sides of intent, except that a sale for
one unit of the token bought goes out without a bound. -/
theorem press_protected_iff {env : Env} {viem : Viem env} {wkashAddress factory : Option Text}
    {hubs : List Token} {amount : Option Int} {answer : Option (Contract → Result)} {c : Card}
    {route : SwapRoute} {call : SwapCall} {deadlineFromNow : ℚ → Except String Int}
    (hwkash : ∀ x, wkashAddress = some x → Spells x env.WETH)
    (hhook : useSwapRoute viem wkashAddress factory hubs c.tokenIn c.tokenOut amount c.side answer =
      .ok (some route)) (hroute : c.route = some route) (hs : Reached c.settings)
    (hpress : c.press deadlineFromNow = .ok (some call)) :
    Protected env c route call ↔ c.side = .exactOut ∨ 2 ≤ route.amountOut := by
  obtain ⟨⟨hin, hout⟩, hleads⟩ := useSwapRoute_some hhook
  obtain ⟨quote, _, address, deadline, hquote, hroute', -, -, rfl⟩ := press_eq_some hpress
  obtain rfl := Option.some.inj (hroute'.symm.trans hroute)
  rw [← call_bounded_iff hs.tolerant hroute hin hout hquote]
  constructor
  · exact fun h => h.1
  · intro hbounded
    exact ⟨hbounded, hbounded.amountOutMin_ne,
      call_accepted hs.tolerant hroute hwkash hleads hin hout hquote⟩

/-- A sale at the default settings, with the route that was found for it. -/
def saleCard (tokenIn tokenOut : Token) (route : SwapRoute) : Card where
  tokenIn := tokenIn
  tokenOut := tokenOut
  side := .exactIn
  route := some route
  settings := DEFAULT_SETTINGS
  routerAddress := some (hexText 40 2)
  address := some (hexText 40 7)
  isConnected := true
  balanceIn := some 1000
  allowance := 1000
  isApproving := false
  isPending := false
  isLoading := false

theorem default_reached : Reached DEFAULT_SETTINGS := ⟨[], rfl⟩

/-- A thousand and four thousand units in the pool of tokens 4 and 5. -/
def quotedAnswer (c : Contract) : Result :=
  if c.functionName = .getReserves then .reserves 1000 4000 else .address (hexText 40 4)

def quotedRoute : SwapRoute where
  amountIn := 100
  amountOut := 362
  impactBps := 950
  path := [hexText 40 4, hexText 40 5]
  symbols := ["mLINK".toList, "mUSDC".toList]

def quotedCard : Card := saleCard (listedHub "mLINK" 4) (listedHub "mUSDC" 5) quotedRoute

def quotedCall : SwapCall :=
  .swapExactTokensForTokens 100 360 [hexText 40 4, hexText 40 5] (hexText 40 7) 1200

/-- The trader at 7 has some of each token beside what the pool holds. -/
def quotedMarket : World :=
  { quotedWorld with
    token := fun _ => (ArkSwapPair.issued (ArkSwapPair.issued .initial (pool codedEnv 4 5) 8000) 7
      5000).approve 7 2 9000 }

theorem quotedMarket_conserved (t : Address) : (quotedMarket.token t).Conserved :=
  (ArkSwapERC20.initial_conserved.issued (by decide)).issued (by decide)

theorem quotedPool_ne {t : Address} (h : t ≤ 9) : t ≠ pool codedEnv 4 5 := by
  have hlt : 9 < pool codedEnv 4 5 := by decide +kernel
  exact (h.trans_lt hlt).ne

theorem quotedPool_notMem {t : Address} (h : t ≤ 9) : t ∉ poolsOf codedEnv [4, 5] := fun hmem =>
  quotedPool_ne h (List.mem_singleton.mp hmem)

theorem quotedMarket_pair : quotedMarket.pair (pool codedEnv 4 5) = some quotedPair := by
  simp only [quotedMarket, quotedWorld, Function.update_self]

theorem quotedMarket_bare : quotedMarket.pair codedEnv.router = none := by
  have hne : codedEnv.router ≠ pool codedEnv 4 5 := quotedPool_ne (by decide)
  simp only [quotedMarket, quotedWorld, Function.update_of_ne hne]
  decide

theorem quotedMarket_live : Live codedEnv quotedMarket quotedPools quotedHop 4 5 quotedPair :=
  { quoted_live with chain := quotedMarket_pair }

theorem quotedMarket_balance (t : Address) : quotedMarket.balanceOf t 7 = 5000 ∧
    quotedMarket.balanceOf t (pool codedEnv 4 5) = 8000 := by
  have hne : (7 : Address) ≠ pool codedEnv 4 5 := quotedPool_ne (by decide)
  simp only [World.balanceOf, quotedMarket, ArkSwapERC20.approve, ArkSwapPair.issued_balanceOf,
    Ledger.credit_self, Ledger.credit_of_ne _ _ hne, Ledger.credit_of_ne _ _ hne.symm]
  exact ⟨rfl, rfl⟩

theorem quotedMarket_course : Course codedEnv quotedMarket 7 [4, 5] [100, 362] where
  distinct := List.nodup_singleton _
  plain t ht := by
    refine ⟨⟨fun _ _ _ => rfl, quotedMarket_conserved t⟩, quotedPool_notMem ?_⟩
    simp only [List.mem_cons, List.not_mem_nil, or_false] at ht
    rcases ht with rfl | rfl <;> decide
  ready := by
    refine ⟨⟨quotedPair, quotedMarket_pair, by decide, by decide, by decide, ?_⟩, trivial⟩
    rw [(quotedMarket_balance 4).2, (quotedMarket_balance 5).2]
    decide
  dst_ne := quotedPool_notMem (by decide)
  dst_token pre a b hpath := by
    rcases pre with _ | ⟨u, pre⟩
    · obtain ⟨rfl, hrest⟩ := List.cons.inj hpath
      obtain ⟨rfl, -⟩ := List.cons.inj hrest
      decide
    · have hlength := congrArg List.length hpath
      simp at hlength

theorem quotedMarket_unchanged : Unchanged codedEnv quotedMarket .exactIn quotedRoute [4, 5] := by
  have hpool : poolOf quotedPools quotedHop = .ok ⟨hexText 40 4, 1000, 4000⟩ := by
    rw [poolOf, quotedHop, (spells_hexText (pool codedEnv 4 5)).toLowerCase, quotedPools, if_pos rfl]
  have hquote : quote .exactIn [quotedHop] quotedPools 100 = .ok (some quotedRoute.toQuote) := by
    simp only [UseSwapRoute.quote, quoteExactIn, List.foldlM, hopIn, hpool, ok_bind]
    decide
  have hspelled : List.Forall₂ Spells [hexText 40 4, hexText 40 5] [4, 5] :=
    .cons (spells_hexText 4) (.cons (spells_hexText 5) .nil)
  exact ⟨hspelled, quotedPools, [quotedHop], _, 100, .cons quotedMarket_live (.nil 5), hquote⟩

theorem quotedMarket_tradable :
    Tradable codedEnv quotedMarket quotedCard quotedRoute 7 [4, 5] [100, 362] 0 1200 where
  setting :=
    { router_ne := by decide
      WETH_ne := by decide
      exact_WETH := fun _ _ _ => rfl
      bare := quotedMarket_bare
      feeTo_ne := by decide
      sender_ne := by decide
      sender_ne_WETH := by decide
      passive := fun w w' h => by
        obtain rfl : w = w' := Except.ok.inj h
        exact ⟨rfl, rfl, rfl, fun _ => rfl⟩ }
  unexpired := by decide
  computed := by
    have hroute : quotedRoute.amountIn.toNat = 100 := rfl
    simp only [quotedCard, saleCard, routerAmounts, ArkSwapRouter.getAmountsOut,
      ArkSwapLibrary.getAmountsOut, amountsOut, quotedMarket_live.getReserves, ok_bind, hroute]
    decide
  course := quotedMarket_course
  outside := quotedPool_notMem (by decide)
  level h := by cases h
  funds _ :=
    { outside := quotedPool_notMem (by decide)
      held := fun t ht => by
        rw [(quotedMarket_balance t).1]
        decide
      approved := fun t ht => by
        obtain rfl := Option.some.inj ht
        decide }
  cash h := by cases h
  room h := by cases h
  backed h := by cases h
  accepts w := ⟨w, rfl⟩

theorem quotedCard_protected : Protected codedEnv quotedCard quotedRoute quotedCall ∧
    ∃ w', (quotedCall.toRouter [4, 5] 7).exec codedEnv quotedMarket 7 = .ok w' := by
  have hwkash : ∀ x, some (hexText 40 3) = some x → Spells x codedEnv.WETH := by
    intro x hx
    rw [← Option.some.inj hx]
    exact spells_hexText 3
  have hhook : useSwapRoute (checksummed codedEnv) (some (hexText 40 3)) (some (hexText 40 1)) []
      quotedCard.tokenIn quotedCard.tokenOut (some 100) .exactIn (some quotedAnswer) =
        .ok (some quotedRoute) := by decide +kernel
  have hpress : quotedCard.press (fun _ => .ok 1200) = .ok (some quotedCall) := by decide +kernel
  have hprotected := (press_protected_iff hwkash hhook rfl default_reached hpress).mpr
    (.inr (by decide))
  exact ⟨hprotected, hprotected.2.2 quotedMarket 7 [4, 5] [100, 362] quotedMarket_unchanged
    quotedMarket_tradable⟩

def dustRoute : SwapRoute where
  amountIn := 3
  amountOut := 1
  impactBps := 0
  path := [hexText 40 3, hexText 40 5]
  symbols := ["KASH".toList, "mLINK".toList]

/-- A sale of three units for a quoted one, at the default tolerance. -/
theorem dustSale_unprotected : ∃ call,
    useSwapRoute (checksummed codedEnv) (some (hexText 40 3)) (some (hexText 40 1))
      [listedHub "mUSDC" 7] nativeKash (listedHub "mLINK" 5) (some 3) .exactIn (some evenPools) =
        .ok (some dustRoute) ∧
    Reached DEFAULT_SETTINGS ∧
    (saleCard nativeKash (listedHub "mLINK" 5) dustRoute).press (fun _ => .ok 1200) =
      .ok (some call) ∧
    call.amountOutMin = some 0 ∧
    ¬Protected codedEnv (saleCard nativeKash (listedHub "mLINK" 5) dustRoute) dustRoute call := by
  refine ⟨.swapExactETHForTokens 0 [hexText 40 3, hexText 40 5] (hexText 40 7) 1200 3,
    by decide +kernel, default_reached, by decide +kernel, rfl, fun h => h.2.1 rfl⟩

end SwapCard

end ArkSwap
