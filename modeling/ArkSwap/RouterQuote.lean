import ArkSwap.RouterHops

/-! A quoted path executes at its quote. -/

namespace ArkSwap

open Checked ArkSwapPair ArkSwapLibrary ArkSwapRouter02

variable {env : Env} {w : World} {p : ArkSwapPair} {a b dst : Address} {x y : Nat}

/-- A deployed, idle pool whose reserves are backed and whose balances stay
within a reserve's range, also with `x` more of `a`. -/
def Ready (env : Env) (w : World) (a b : Address) (x : Nat) : Prop :=
  ∃ p, w.pair (pool env a b) = some p ∧ p.unlocked = 1 ∧ p.token0 = min a b ∧
    p.token1 = max a b ∧ reserveOf p a ≤ w.balanceOf a (pool env a b) ∧
    reserveOf p b ≤ w.balanceOf b (pool env a b) ∧
    w.balanceOf a (pool env a b) + x ≤ Uint.max112 ∧
    w.balanceOf b (pool env a b) ≤ Uint.max112

def Routable (env : Env) (w : World) : List Address → List Nat → Prop
  | a :: b :: path, x :: amounts => Ready env w a b x ∧ Routable env w (b :: path) amounts
  | _, _ => True

theorem reserveOf_sorted {r : Nat × Nat} (hne : a ≠ b) (h₀ : p.token0 = min a b)
    (hr : r = if a = min a b then (p.reserve0, p.reserve1) else (p.reserve1, p.reserve0)) :
    r = (reserveOf p a, reserveOf p b) := by
  rw [hr, reserveOf, reserveOf, h₀]
  by_cases hm : a = min a b
  · rw [if_pos hm, if_pos hm, if_neg (fun h => hne (hm.trans h.symm))]
  · have hb : b = min a b := ((min_choice a b).resolve_left (fun h => hm h.symm)).symm
    rw [if_neg hm, if_neg hm, if_pos hb]

theorem Ready.hop {r R : Nat} (h : Ready env w a b x)
    (hres : getReserves env w a b = .ok (r, R)) (hx : 0 < x) (hy : 0 < y) (hr : 0 < r)
    (hlt : y < R) (hpays : ConstantProduct.Pays 1000 3 x r R y) :
    ∃ p, Hop env w p a b x y (w.balanceOf a (pool env a b)) := by
  obtain ⟨p, hp, hu, h₀, h₁, hba, hbb, hfa, hfb⟩ := h
  obtain ⟨hne, h0, p', hp', hr'⟩ := getReserves_ok hres
  obtain rfl : p = p' := Option.some.inj (hp.symm.trans hp')
  obtain ⟨rfl, rfl⟩ := Prod.mk.inj (reserveOf_sorted hne h₀ hr')
  exact ⟨p, hne, h0, hp, hu, h₀, h₁, hr, hba, hfa, hbb, hfb, hx, hy, hlt, hpays⟩

theorem amountsOut_waiting {path : List Address} {amounts : List Nat}
    (hq : amountsOut env w x path = .ok amounts) (hne : path ≠ [])
    (hr : Routable env w path amounts) (hpos : ∀ z ∈ amounts, 0 < z) :
    amounts.head? = some x ∧ Waiting env w path amounts := by
  induction path generalizing x amounts with
  | nil => exact (hne rfl).elim
  | cons a path ih =>
    cases path with
    | nil =>
      simp only [amountsOut, Except.ok.injEq] at hq
      subst hq
      exact ⟨rfl, trivial⟩
    | cons b path =>
      simp only [amountsOut, bind_eq_ok, pure_eq_ok, Except.ok.injEq] at hq
      obtain ⟨⟨r, R⟩, hres, y, hy, rest, hrest, rfl⟩ := hq
      obtain ⟨hx, hr₀, hR₀, rfl⟩ := getAmountOut_ok hy
      obtain ⟨hready, htail⟩ := hr
      obtain ⟨hhead, hwait⟩ := ih hrest (List.cons_ne_nil _ _) htail
        (fun z hz => hpos z (List.mem_cons_of_mem _ hz))
      obtain ⟨ys, rfl⟩ : ∃ ys, rest = ConstantProduct.amountOut 1000 3 x r R :: ys := by
        cases rest with
        | nil => cases hhead
        | cons z ys => exact ⟨ys, by rw [Option.some.inj hhead]⟩
      have hy0 := hpos _ (List.mem_cons_of_mem _ (List.mem_cons_self ..))
      exact ⟨rfl, hready.hop hres hx hy0 hr₀
        (ConstantProduct.amountOut_lt (by norm_num) hr₀ hR₀)
        (ConstantProduct.pays_amountOut _ _ _ _ _), hwait⟩

theorem amountsIn_waiting {path : List Address} {amounts : List Nat} {amountOut : Nat}
    (hq : amountsIn env w amountOut path = .ok (x, amounts)) (hne : path ≠ [])
    (hr : Routable env w path (x :: amounts)) :
    (x :: amounts).getLast? = some amountOut ∧ Waiting env w path (x :: amounts) := by
  induction path generalizing x amounts with
  | nil => exact (hne rfl).elim
  | cons a path ih =>
    cases path with
    | nil =>
      simp only [amountsIn, Except.ok.injEq, Prod.mk.injEq] at hq
      obtain ⟨rfl, rfl⟩ := hq
      exact ⟨rfl, trivial⟩
    | cons b path =>
      simp only [amountsIn, bind_eq_ok, pure_eq_ok, Except.ok.injEq, Prod.mk.injEq] at hq
      obtain ⟨⟨y, ys⟩, hrest, ⟨r, R⟩, hres, x', hx, rfl, rfl⟩ := hq
      obtain ⟨hy0, hx0, hr0, hlt, hpays⟩ := getAmountIn_ok hx
      obtain ⟨hready, htail⟩ := hr
      obtain ⟨hlast, hwait⟩ := ih hrest (List.cons_ne_nil _ _) htail
      exact ⟨by rwa [List.getLast?_cons_cons], hready.hop hres hx0 hy0 hr0 hlt hpays, hwait⟩

theorem safeTransferFrom_sets {t src : Address} {v : Nat} (dst : Address) (hp : Plain env w t)
    (hv : v ≤ w.balanceOf t src) (ha : v ≤ (w.token t).allowance src env.router) :
    ∃ t', TransferHelper.safeTransferFrom env w t src dst v = .ok (w.setToken t t') ∧
      t'.Conserved ∧ t'.balanceOf = Ledger.move (w.token t).balanceOf src dst v := by
  obtain ⟨t', hspend, hbal, hsup⟩ : ∃ t', w.spendAllowance env t env.router src v = .ok t' ∧
      t'.balanceOf = (w.token t).balanceOf ∧ t'.totalSupply = (w.token t).totalSupply := by
    by_cases hw : t = env.WETH ∧ src = env.router
    · exact ⟨_, if_pos hw, rfl, rfl⟩
    · rw [World.spendAllowance, if_neg hw, ArkSwapERC20.spendAllowance]
      split
      · have hsub : SafeMath.sub ((w.token t).allowance src env.router) v =
          .ok ((w.token t).allowance src env.router - v) := if_pos ha
        rw [hsub]
        exact ⟨_, rfl, rfl, rfl⟩
      · exact ⟨_, rfl, rfl, rfl⟩
  have hc' : t'.Conserved := by
    rw [ArkSwapERC20.Conserved, hbal, hsup]
    exact hp.conserved
  have hv' : v ≤ t'.balanceOf src := by rw [hbal]; exact hv
  have hmove : (w.setToken t t').transfer env t src dst v =
      .ok ((w.setToken t t').moved t src dst v) := by
    rw [World.transfer_eq_ok hp.standard, World.setToken_token, World.balanceOf_setToken]
    exact ⟨hv', hc'.debit_add_lt hv', rfl⟩
  refine ⟨{ t' with balanceOf := Ledger.move t'.balanceOf src dst v }, ?_, hc'.move hv', ?_⟩
  · rw [TransferHelper.safeTransferFrom, orFail_eq_ok, World.transferFrom, hspend, ok_bind, hmove,
      World.moved, World.setToken_token, World.setToken_setToken]
  · exact congrArg (fun f => Ledger.move f src dst v) hbal

theorem transferFrom_defined {t src : Address} (v : Nat) (dst : Address) (hp : Plain env w t)
    (hv : v ≤ w.balanceOf t src) (ha : v ≤ (w.token t).allowance src env.router) :
    ∃ w', TransferHelper.safeTransferFrom env w t src dst v = .ok w' ∧ w'.pair = w.pair ∧
      (∀ u c, w'.balanceOf u c = (w.moved t src dst v).balanceOf u c) ∧
      ∀ u, (w.token u).Conserved → (w'.token u).Conserved := by
  obtain ⟨t', hok, hc, hbal⟩ := safeTransferFrom_sets dst hp hv ha
  refine ⟨_, hok, rfl, fun u c => ?_, fun u hu => ?_⟩
  · by_cases htu : u = t
    · subst htu
      rw [World.balanceOf_setToken, hbal, World.balanceOf, World.moved_token]
    · rw [World.balanceOf_moved_of_ne _ _ _ _ htu, World.balanceOf_setToken_of_ne _ htu]
  · by_cases htu : u = t
    · subst htu
      exact (World.setToken_token w u t').symm ▸ hc
    · rwa [World.setToken_token_of_ne htu]

/-- A path of distinct pools over plain tokens, ready for these amounts and for a
recipient outside the pools. -/
structure Course (env : Env) (w : World) (dst : Address) (path : List Address)
    (amounts : List Nat) : Prop where
  distinct : (poolsOf env path).Nodup
  plain : ∀ t ∈ path, Plain env w t ∧ t ∉ poolsOf env path
  ready : Routable env w path amounts
  dst_ne : dst ∉ poolsOf env path
  dst_token : ∀ pre c d, path = pre ++ [c, d] → dst ≠ c ∧ dst ≠ d

/-- The first pool of the path has been paid `x` of the first token. -/
structure Paid (env : Env) (w w₁ : World) (path : List Address) (x : Nat) : Prop where
  pair : w₁.pair = w.pair
  balance : ∀ t, ∀ q ∈ poolsOf env path, w₁.balanceOf t q =
    w.balanceOf t q + if path.head? = some t ∧ (poolsOf env path).head? = some q then x else 0
  conserved : ∀ t, (w.token t).Conserved → (w₁.token t).Conserved

/-- Once paid, the pools of the path trade. -/
theorem Course.trades {w₁ : World} {tokenOut : Address} {path : List Address} {amounts : List Nat}
    {bought : Nat} (h : Course env w dst (a :: b :: path) (x :: amounts))
    (hw : Waiting env w (a :: b :: path) (x :: amounts)) (hpaid : Paid env w w₁ (a :: b :: path) x)
    (hout : (a :: b :: path).getLast? = some tokenOut)
    (hbought : (x :: amounts).getLast? = some bought) :
    ∃ w', swapAmounts env dst w₁ (x :: amounts) (a :: b :: path) = .ok w' ∧
      (∀ t, (w₁.token t).Conserved → (w'.token t).Conserved) ∧
      ∀ t c, c ∉ poolsOf env (a :: b :: path) →
        w'.balanceOf t c = w₁.balanceOf t c + if t = tokenOut ∧ c = dst then bought else 0 := by
  match amounts, hw with
  | y :: amounts, ⟨⟨p, hp⟩, hrest⟩ =>
    have hmem : pool env a b ∈ poolsOf env (a :: b :: path) := List.mem_cons_self ..
    have hfirst : ∀ t, w₁.balanceOf t (pool env a b) =
        w.balanceOf t (pool env a b) + if a = t then x else 0 := by
      intro t
      rw [hpaid.balance t _ hmem]
      simp [poolsOf]
    have hp₁ : Hop env w₁ p a b x y (w.balanceOf a (pool env a b)) := by
      refine hp.congr (by rw [hpaid.pair]) ?_
      rw [hfirst, if_neg hp.ne, Nat.add_zero]
    have hbal₁ : w₁.balanceOf a (pool env a b) = w.balanceOf a (pool env a b) + x := by
      rw [hfirst, if_pos rfl]
    have hrest₁ : Waiting env w₁ (b :: path) (y :: amounts) := by
      refine hrest.congr (fun q hq => ⟨by rw [hpaid.pair], fun t => ?_⟩)
      have hne : pool env a b ≠ q := fun h' => (List.nodup_cons.mp h.distinct).1 (h' ▸ hq)
      rw [hpaid.balance t q (List.mem_cons_of_mem _ hq)]
      simp [poolsOf, hne]
    have hplain₁ : ∀ t ∈ a :: b :: path, Plain env w₁ t ∧ t ∉ poolsOf env (a :: b :: path) := by
      intro t ht
      obtain ⟨hplain, hnot⟩ := h.plain t ht
      exact ⟨⟨hplain.standard, hpaid.conserved t hplain.conserved⟩, hnot⟩
    exact swapAmounts_runs hp₁ hbal₁ hrest₁ h.distinct hplain₁ h.dst_ne h.dst_token
      (by rwa [List.getLast?_cons_cons] at hout) (by rwa [List.getLast?_cons_cons] at hbought)

/-- A trade of the given amounts along the path: distinct pools over plain
tokens, a sender who can pay, and a recipient outside the pools. -/
structure Route (env : Env) (w : World) (sender dst : Address) (path : List Address)
    (amounts : List Nat) : Prop where
  distinct : (poolsOf env path).Nodup
  plain : ∀ t ∈ path, Plain env w t ∧ t ∉ poolsOf env path
  ready : Routable env w path amounts
  sender_ne : sender ∉ poolsOf env path
  dst_ne : dst ∉ poolsOf env path
  dst_token : ∀ pre c d, path = pre ++ [c, d] → dst ≠ c ∧ dst ≠ d
  held : ∀ t z, path.head? = some t → amounts.head? = some z → z ≤ w.balanceOf t sender
  approved : ∀ t z, path.head? = some t → amounts.head? = some z →
    z ≤ (w.token t).allowance sender env.router

theorem Route.course {sender : Address} {path : List Address} {amounts : List Nat}
    (h : Route env w sender dst path amounts) : Course env w dst path amounts :=
  { h with }

/-- The sender's tokens reach the first pool. -/
theorem payFirst_paid {sender : Address} {path : List Address} (hne : a ≠ b) (h0 : min a b ≠ 0)
    (hp : Plain env w a) (hs : sender ∉ poolsOf env (a :: b :: path))
    (hheld : x ≤ w.balanceOf a sender) (happroved : x ≤ (w.token a).allowance sender env.router) :
    ∃ w₁, payFirst env w sender (a :: b :: path) x = .ok w₁ ∧ Paid env w w₁ (a :: b :: path) x ∧
      ∀ t c, w₁.balanceOf t c = (w.moved a sender (pool env a b) x).balanceOf t c := by
  obtain ⟨w₁, hpay, hpair, hbal, hcons⟩ := transferFrom_defined x (pool env a b) hp hheld happroved
  have hfor : pairFor env a b = .ok (pool env a b) := pairFor_eq_ok.mpr ⟨hne, h0, rfl⟩
  refine ⟨w₁, ?_, ⟨hpair, fun t q hq => ?_, hcons⟩, hbal⟩
  · simp only [payFirst, pathAt, List.getElem?_cons_zero, List.getElem?_cons_succ, ok_bind, hfor]
    exact hpay
  · rw [hbal, balanceOf_moved (ne_of_mem_of_not_mem hq hs)]
    simp [poolsOf, eq_comm]

theorem Route.runs {sender tokenOut : Address} {path : List Address} {amounts : List Nat}
    {bought : Nat} (h : Route env w sender dst (a :: b :: path) (x :: amounts))
    (hw : Waiting env w (a :: b :: path) (x :: amounts))
    (hout : (a :: b :: path).getLast? = some tokenOut)
    (hbought : (x :: amounts).getLast? = some bought) :
    ∃ w₁ w', payFirst env w sender (a :: b :: path) x = .ok w₁ ∧
      swapAmounts env dst w₁ (x :: amounts) (a :: b :: path) = .ok w' ∧
      ∀ t c, c ∉ poolsOf env (a :: b :: path) →
        w'.balanceOf t c + (if t = a ∧ c = sender then x else 0) =
          w.balanceOf t c + if t = tokenOut ∧ c = dst then bought else 0 := by
  obtain ⟨hne, h0⟩ := hw.first
  have hheld := h.held a x rfl rfl
  obtain ⟨w₁, hpay, hpaid, hbal⟩ := payFirst_paid hne h0 (h.plain a (List.mem_cons_self ..)).1
    h.sender_ne hheld (h.approved a x rfl rfl)
  obtain ⟨w', hrun, -, hend⟩ := h.course.trades hw hpaid hout hbought
  refine ⟨w₁, w', hpay, hrun, fun t c hc => ?_⟩
  have hcp : c ≠ pool env a b := fun h' => hc (h' ▸ List.mem_cons_self ..)
  have hm := moved_balance t (pool env a b) c hheld
  rw [if_neg (fun h : t = a ∧ c = pool env a b => hcp h.2), Nat.add_zero] at hm
  rw [hend t c hc, hbal, Nat.add_right_comm, hm]

theorem exists_two {path : List Address} (h : path.length ≥ 2) :
    ∃ a b rest, path = a :: b :: rest := by
  rcases path with _ | ⟨a, _ | ⟨b, rest⟩⟩
  · simp at h
  · simp at h
  · exact ⟨a, b, rest, rfl⟩

/-- A quoted trade goes through for exactly what was quoted, whether the
input or the output is fixed. -/
theorem quote_executes {sender tokenIn tokenOut : Address} {path : List Address}
    {amounts : List Nat} {paid bought deadline : Nat} (h : Route env w sender dst path amounts)
    (hin : path.head? = some tokenIn) (hout : path.getLast? = some tokenOut)
    (hpaid : amounts.head? = some paid) (hbought : amounts.getLast? = some bought)
    (hd : w.timestamp ≤ deadline) :
    (∀ amountIn amountOutMin, getAmountsOut env w amountIn path = .ok amounts →
      (∀ z ∈ amounts, 0 < z) → amountOutMin ≤ bought →
      ∃ w', swapExactTokensForTokens env w sender amountIn amountOutMin path dst deadline =
          .ok (amounts, w') ∧ paid = amountIn ∧
        ∀ t c, c ∉ poolsOf env path →
          w'.balanceOf t c + (if t = tokenIn ∧ c = sender then paid else 0) =
            w.balanceOf t c + if t = tokenOut ∧ c = dst then bought else 0) ∧
    (∀ amountOut amountInMax, getAmountsIn env w amountOut path = .ok amounts →
      paid ≤ amountInMax →
      ∃ w', swapTokensForExactTokens env w sender amountOut amountInMax path dst deadline =
          .ok (amounts, w') ∧ bought = amountOut ∧
        ∀ t c, c ∉ poolsOf env path →
          w'.balanceOf t c + (if t = tokenIn ∧ c = sender then paid else 0) =
            w.balanceOf t c + if t = tokenOut ∧ c = dst then bought else 0) := by
  obtain ⟨rest, rfl⟩ : ∃ rest, amounts = paid :: rest := by
    cases amounts with
    | nil => cases hpaid
    | cons x rest => exact ⟨rest, by rw [Option.some.inj hpaid]⟩
  have hens : ensure w deadline = .ok () := require_of hd _
  have hlastAmount : lastAmount (paid :: rest) = .ok bought := by rw [lastAmount, hbought]
  constructor
  · intro amountIn amountOutMin hq hpos hmin
    have hq' := hq
    rw [getAmountsOut, bind_eq_ok] at hq'
    obtain ⟨u, hlen, hq'⟩ := hq'
    rw [require_eq_ok] at hlen
    obtain ⟨a, b, path, rfl⟩ := exists_two hlen
    obtain ⟨hhead, hw⟩ := amountsOut_waiting hq' (List.cons_ne_nil _ _) h.ready hpos
    obtain rfl : a = tokenIn := Option.some.inj hin
    obtain ⟨w₁, w', hpay, hrun, hend⟩ := h.runs hw hout hbought
    refine ⟨w', ?_, Option.some.inj hhead, hend⟩
    rw [swapExactTokensForTokens, hens, ok_bind, hq, ok_bind, hlastAmount, ok_bind,
      require_of hmin, ok_bind, firstAmount, List.head?_cons, ok_bind, hpay, ok_bind, hrun]
    rfl
  · intro amountOut amountInMax hq hmax
    have hq' := hq
    simp only [getAmountsIn, bind_eq_ok, require_eq_ok, pure_eq_ok, Except.ok.injEq] at hq'
    obtain ⟨-, hlen, ⟨x, ys⟩, hq', heq⟩ := hq'
    obtain ⟨rfl, rfl⟩ := List.cons.inj heq
    obtain ⟨a, b, path, rfl⟩ := exists_two hlen
    obtain ⟨hlast, hw⟩ := amountsIn_waiting hq' (List.cons_ne_nil _ _) h.ready
    obtain rfl : a = tokenIn := Option.some.inj hin
    obtain ⟨w₁, w', hpay, hrun, hend⟩ := h.runs hw hout hbought
    refine ⟨w', ?_, Option.some.inj (hbought.symm.trans hlast), hend⟩
    rw [swapTokensForExactTokens, hens, ok_bind, hq, ok_bind, firstAmount, List.head?_cons,
      ok_bind, require_of hmax, ok_bind, ok_bind, hpay, ok_bind, hrun]
    rfl

def tradedPair (token0 token1 : Address) : ArkSwapPair :=
  { ArkSwapPair.initial token0 token1 with reserve0 := 50000, reserve1 := 80000 }

/-- Held by the pools of tokens 4 and 5 and of 5 and 8, and by a trader at 7. -/
def tradedToken : ArkSwapERC20 :=
  (issued (issued (issued .initial (pool hashEnv 4 5) 80001) (pool hashEnv 5 8) 80002)
    7 5000).approve 7 2 9000

def market : World where
  timestamp := 0
  token _ := tradedToken
  pair a := if a = pool hashEnv 4 5 then some (tradedPair 4 5)
    else if a = pool hashEnv 5 8 then some (tradedPair 5 8) else none
  factory := { feeTo := 0, feeToSetter := 7, getPair := fun _ _ => 0, allPairs := [] }
  native _ := 0
  logs := []

theorem tradedToken_conserved : tradedToken.Conserved :=
  ((ArkSwapERC20.initial_conserved.issued (by decide)).issued (by decide)).issued (by decide)

theorem market_route : Route hashEnv market 7 9 [4, 5, 8] [1000, 1564, 2419] where
  distinct := by decide +kernel
  plain t ht := by
    refine ⟨⟨fun _ _ _ => rfl, tradedToken_conserved⟩, ?_⟩
    simp only [List.mem_cons, List.not_mem_nil, or_false] at ht
    rcases ht with rfl | rfl | rfl <;> decide +kernel
  ready := ⟨⟨tradedPair 4 5, by decide +kernel⟩, ⟨tradedPair 5 8, by decide +kernel⟩, trivial⟩
  sender_ne := by decide +kernel
  dst_ne := by decide +kernel
  dst_token pre c d h := by
    have hl := congrArg List.length h
    rcases pre with _ | ⟨u, _ | ⟨v, pre⟩⟩
    · simp at hl
    · simp only [List.cons_append, List.nil_append, List.cons.injEq] at h
      obtain ⟨-, rfl, rfl, -⟩ := h
      decide
    · simp at hl
  held t z ht hz := by
    obtain rfl := Option.some.inj ht
    obtain rfl := Option.some.inj hz
    decide +kernel
  approved t z ht hz := by
    obtain rfl := Option.some.inj ht
    obtain rfl := Option.some.inj hz
    decide

theorem market_quote_executes :
    ∃ w', swapExactTokensForTokens hashEnv market 7 1000 2400 [4, 5, 8] 9 0 =
      .ok ([1000, 1564, 2419], w') ∧ 1000 = 1000 ∧
      ∀ t c, c ∉ poolsOf hashEnv [4, 5, 8] →
        w'.balanceOf t c + (if t = 4 ∧ c = 7 then 1000 else 0) =
          market.balanceOf t c + if t = 8 ∧ c = 9 then 2419 else 0 :=
  (quote_executes market_route rfl rfl rfl rfl (le_refl 0)).1 1000 2400 (by decide +kernel)
    (by decide) (by decide)

end ArkSwap
