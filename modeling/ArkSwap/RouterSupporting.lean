import ArkSwap.RouterEmpty
import ArkSwap.RouterQuote

/-! On standard tokens the fee-on-transfer path of the router does what its
plain path does. -/

namespace ArkSwap

open Checked ArkSwapPair ArkSwapLibrary ArkSwapRouter02

variable {env : Env} {w w₁ w' : World} {p : ArkSwapPair} {a b c hop dst sender : Address}
  {x y : Nat} {path rest : List Address}

/-- Each pool of the path is the pair of its two tokens and holds its reserve
of the token it takes in; the first one holds `x` more. -/
def Level (env : Env) (w : World) : Nat → List Address → Prop
  | x, a :: b :: path =>
      Trades env w a b ∧
        (∀ p, w.pair (pool env a b) = some p →
          w.balanceOf a (pool env a b) = reserveOf p a + x) ∧
        Level env w 0 (b :: path)
  | _, _ => True

theorem Level.congr (hagree : ∀ q ∈ poolsOf env path,
    w'.pair q = w.pair q ∧ ∀ t, w'.balanceOf t q = w.balanceOf t q)
    (h : Level env w x path) : Level env w' x path := by
  induction path generalizing x with
  | nil => trivial
  | cons a path ih =>
    cases path with
    | nil => trivial
    | cons b path =>
      obtain ⟨htr, hbal, hrest⟩ := h
      obtain ⟨hpair, hsame⟩ := hagree (pool env a b) (List.mem_cons_self ..)
      refine ⟨fun p hp => htr p (hpair ▸ hp), fun p hp => ?_,
        ih (fun q hq => hagree q (List.mem_cons_of_mem _ hq)) hrest⟩
      rw [hsame a]
      exact hbal p (hpair ▸ hp)

theorem getReserves_congr (hp : w'.pair (pool env a b) = w.pair (pool env a b)) :
    getReserves env w' a b = getReserves env w a b := by
  unfold getReserves
  cases hs : sortTokens a b with
  | error e => rfl
  | ok s =>
    obtain ⟨hne, h0, -⟩ := sortTokens_eq_ok.mp hs
    have hfor : pairFor env a b = .ok (pool env a b) := pairFor_eq_ok.mpr ⟨hne, h0, rfl⟩
    simp only [hfor, ok_bind, World.storage, hp]

theorem amountsOut_congr (h : ∀ q ∈ poolsOf env path, w'.pair q = w.pair q) :
    amountsOut env w' x path = amountsOut env w x path := by
  induction path generalizing x with
  | nil => rfl
  | cons a path ih =>
    cases path with
    | nil => rfl
    | cons b path =>
      have hrest : ∀ y, amountsOut env w' y (b :: path) = amountsOut env w y (b :: path) :=
        fun y => ih fun q hq => h q (List.mem_cons_of_mem _ hq)
      simp only [amountsOut, getReserves_congr (h _ (List.mem_cons_self ..)), hrest]

/-- What one hop changes: the pair's own storage and the token it pays out. -/
theorem trade_ok (hne : a ≠ b) (ha : Standard env a) (hb : Standard env b)
    (ht : Trades env w a b) (h : trade env w a b y hop = .ok ((), w₁)) :
    ∃ q, w₁.pair = Function.update w.pair (pool env a b) (some q) ∧
      w₁.token = (w.moved b (pool env a b) hop y).token ∧ y ≤ w.balanceOf b (pool env a b) := by
  obtain ⟨p, hp⟩ := trade_deployed h
  obtain ⟨h₀, h₁⟩ := ht p hp
  rw [trade] at h
  rcases lt_or_gt_of_ne hne with hab | hab
  · rw [min_eq_left hab.le] at h h₀
    rw [max_eq_right hab.le] at h₁
    rw [if_pos rfl, if_pos rfl] at h
    obtain ⟨-, -, -, -, -, -, hle, w₂, p₂, q, hcall, -, -, -, hpair, htok, -⟩ :=
      swap_ok (h₀ ▸ ha) (h₁ ▸ hb) hp h
    obtain rfl := Except.ok.inj hcall
    refine ⟨q, hpair.trans ?_, htok.trans ?_, ?_⟩
    · rw [paidOut, World.moved_pair, World.moved_pair, World.setPair, Function.update_idem]
    · rw [paidOut, World.moved_zero, h₁]
      rfl
    · rwa [World.moved_zero, h₁] at hle
  · rw [min_eq_right hab.le] at h h₀
    rw [max_eq_left hab.le] at h₁
    rw [if_neg hne, if_neg hne] at h
    obtain ⟨-, -, -, -, -, hle, -, w₂, p₂, q, hcall, -, -, -, hpair, htok, -⟩ :=
      swap_ok (h₀ ▸ hb) (h₁ ▸ ha) hp h
    obtain rfl := Except.ok.inj hcall
    refine ⟨q, hpair.trans ?_, htok.trans ?_, ?_⟩
    · rw [paidOut, World.moved_pair, World.moved_pair, World.setPair, Function.update_idem]
    · rw [paidOut, World.moved_zero, h₀]
      rfl
    · rwa [h₀] at hle

theorem Level.step {q : ArkSwapPair} (h : Level env w x (a :: b :: c :: rest))
    (hnd : (poolsOf env (a :: b :: c :: rest)).Nodup)
    (hpair : w₁.pair = Function.update w.pair (pool env a b) (some q))
    (htok : w₁.token = (w.moved b (pool env a b) (pool env b c) y).token) :
    Level env w₁ y (b :: c :: rest) := by
  obtain ⟨-, -, htr, hbal, hrest⟩ := h
  obtain ⟨hfirst, hnd'⟩ := List.nodup_cons.mp hnd
  obtain ⟨hsecond, -⟩ := List.nodup_cons.mp hnd'
  have hsame : ∀ r ∈ poolsOf env (b :: c :: rest), w₁.pair r = w.pair r := fun r hr => by
    rw [hpair, Function.update_of_ne (ne_of_mem_of_not_mem hr hfirst)]
  have hpaid : ∀ t, ∀ r ∈ poolsOf env (b :: c :: rest), w₁.balanceOf t r =
      w.balanceOf t r + if t = b ∧ r = pool env b c then y else 0 := fun t r hr => by
    rw [World.balanceOf, htok]
    exact balanceOf_moved (ne_of_mem_of_not_mem hr hfirst)
  have hmem : pool env b c ∈ poolsOf env (b :: c :: rest) := List.mem_cons_self ..
  refine ⟨fun p hp => htr p (hsame _ hmem ▸ hp), fun p hp => ?_, hrest.congr fun r hr => ?_⟩
  · rw [hpaid b _ hmem, if_pos ⟨rfl, rfl⟩, hbal p (hsame _ hmem ▸ hp), Nat.add_zero]
  · have hr' := List.mem_cons_of_mem (pool env b c) hr
    have hne : r ≠ pool env b c := ne_of_mem_of_not_mem hr hsecond
    refine ⟨hsame r hr', fun t => ?_⟩
    rw [hpaid t r hr', if_neg (fun h => hne h.2), Nat.add_zero]

theorem getReserves_pool (hne : a ≠ b) (h0 : min a b ≠ 0) (hp : w.pair (pool env a b) = some p)
    (h₀ : p.token0 = min a b) :
    getReserves env w a b = .ok (reserveOf p a, reserveOf p b) := by
  have hsort : sortTokens a b = .ok (min a b, max a b) := sortTokens_eq_ok.mpr ⟨hne, h0, rfl⟩
  have hfor : pairFor env a b = .ok (pool env a b) := pairFor_eq_ok.mpr ⟨hne, h0, rfl⟩
  have hstore : w.storage (pool env a b) = .ok p := World.storage_eq_ok.mpr hp
  simp only [getReserves, hsort, ok_bind, hfor, hstore, pure_eq_ok]
  exact congrArg _ (reserveOf_sorted hne h₀ rfl)

/-- A hop that trades what its pool holds beyond the reserve. -/
theorem swapSupporting_cons (hne : a ≠ b) (h0 : min a b ≠ 0)
    (hp : w.pair (pool env a b) = some p) (h₀ : p.token0 = min a b)
    (hbal : w.balanceOf a (pool env a b) = reserveOf p a + x) :
    swapSupportingFeeOnTransferTokens env dst w (a :: b :: rest) =
      getAmountOut x (reserveOf p a) (reserveOf p b) >>= fun y =>
      hopTo env dst b rest >>= fun hop => trade env w a b y hop >>= fun r =>
      swapSupportingFeeOnTransferTokens env dst r.2 (b :: rest) := by
  have hsort : sortTokens a b = .ok (min a b, max a b) := sortTokens_eq_ok.mpr ⟨hne, h0, rfl⟩
  have hfor : pairFor env a b = .ok (pool env a b) := pairFor_eq_ok.mpr ⟨hne, h0, rfl⟩
  have hstore : w.storage (pool env a b) = .ok p := World.storage_eq_ok.mpr hp
  have hsub : SafeMath.sub (w.balanceOf a (pool env a b)) (reserveOf p a) = .ok x :=
    SafeMath.sub_eq_ok.mpr ⟨by omega, by omega⟩
  rw [swapSupportingFeeOnTransferTokens, hsort]
  have hres := reserveOf_sorted (p := p) hne h₀ rfl
  rw [ite_swap, Prod.mk.injEq] at hres
  simp only [ok_bind, hfor, hstore, ite_swap, hres.1, hres.2, hsub, trade]

theorem swapSupporting_deployed
    (h : swapSupportingFeeOnTransferTokens env dst w (a :: b :: rest) = .ok w') :
    a ≠ b ∧ min a b ≠ 0 ∧ ∃ p, w.pair (pool env a b) = some p := by
  simp only [swapSupportingFeeOnTransferTokens, bind_eq_ok, sortTokens_eq_ok, pairFor_eq_ok,
    World.storage_eq_ok] at h
  obtain ⟨_, ⟨hne, h0, rfl⟩, _, ⟨-, -, rfl⟩, p, hp, -⟩ := h
  exact ⟨hne, h0, p, hp⟩

/-- Level pools trade along a path exactly the amounts quoted in advance. -/
theorem swapSupporting_iff (hstd : ∀ t ∈ path, Standard env t) (hnd : (poolsOf env path).Nodup)
    (hlev : Level env w x path) :
    swapSupportingFeeOnTransferTokens env dst w path = .ok w' ↔
      ∃ amounts, amountsOut env w x path = .ok amounts ∧
        swapAmounts env dst w amounts path = .ok w' := by
  induction path generalizing w x with
  | nil => simp [swapSupportingFeeOnTransferTokens, amountsOut, swapAmounts]
  | cons a path ih =>
    cases path with
    | nil => simp [swapSupportingFeeOnTransferTokens, amountsOut, swapAmounts]
    | cons b rest =>
      have ha := hstd a List.mem_cons_self
      have hb := hstd b (List.mem_cons_of_mem _ List.mem_cons_self)
      have hnd' : (poolsOf env (b :: rest)).Nodup := (List.nodup_cons.mp hnd).2
      obtain ⟨htr, hbal, -⟩ := id hlev
      -- after the hop, the two loops agree on the rest of the path
      have hrest : ∀ {y hop w₁}, a ≠ b → hopTo env dst b rest = .ok hop →
          trade env w a b y hop = .ok ((), w₁) →
          (swapSupportingFeeOnTransferTokens env dst w₁ (b :: rest) = .ok w' ↔
            ∃ amounts, amountsOut env w y (b :: rest) = .ok amounts ∧
              swapAmounts env dst w₁ amounts (b :: rest) = .ok w') := by
        intro y hop w₁ hne hhop htrade
        obtain ⟨q, hpair, htok, -⟩ := trade_ok hne ha hb htr htrade
        have hsame : ∀ r ∈ poolsOf env (b :: rest), w₁.pair r = w.pair r := fun r hr => by
          rw [hpair, Function.update_of_ne (ne_of_mem_of_not_mem hr (List.nodup_cons.mp hnd).1)]
        rw [← amountsOut_congr hsame]
        refine ih (fun t ht => hstd t (List.mem_cons_of_mem _ ht)) hnd' ?_
        cases rest with
        | nil => trivial
        | cons c rest =>
          obtain ⟨-, -, rfl⟩ := pairFor_eq_ok.mp hhop
          exact hlev.step hnd hpair htok
      constructor
      · intro h
        obtain ⟨hne, h0, p, hp⟩ := swapSupporting_deployed h
        have h₀ := (htr p hp).1
        rw [swapSupporting_cons hne h0 hp h₀ (hbal p hp)] at h
        simp only [bind_eq_ok] at h
        obtain ⟨y, hy, hop, hhop, ⟨⟨⟩, w₁⟩, htrade, h⟩ := h
        obtain ⟨amounts, hq, hrun⟩ := (hrest hne hhop htrade).mp h
        obtain ⟨ys, rfl⟩ := List.head?_eq_some_iff.mp (amountsOut_shape hq (List.cons_ne_nil _ _)).2
        refine ⟨x :: y :: ys, ?_, ?_⟩
        · simp only [amountsOut, getReserves_pool hne h0 hp h₀, ok_bind, hy, hq, pure_eq_ok]
        · rw [swapAmounts_cons hne h0 hhop]
          change trade env w a b y hop >>= _ = _
          rw [htrade, ok_bind]
          exact hrun
      · rintro ⟨amounts, hq, hrun⟩
        simp only [amountsOut, bind_eq_ok, pure_eq_ok, Except.ok.injEq] at hq
        obtain ⟨⟨r, R⟩, hres, y, hy, amounts, hq, rfl⟩ := hq
        obtain ⟨hne, h0, p, hp, -⟩ := getReserves_ok hres
        have h₀ := (htr p hp).1
        rw [getReserves_pool hne h0 hp h₀, Except.ok.injEq, Prod.mk.injEq] at hres
        obtain ⟨rfl, rfl⟩ := hres
        obtain ⟨ys, rfl⟩ := List.head?_eq_some_iff.mp (amountsOut_shape hq (List.cons_ne_nil _ _)).2
        have hrun' := hrun
        simp only [swapAmounts, bind_eq_ok] at hrun'
        obtain ⟨-, -, hop, hhop, -⟩ := hrun'
        rw [swapAmounts_cons hne h0 hhop, bind_eq_ok] at hrun
        obtain ⟨⟨⟨⟩, w₁⟩, htrade, hrun⟩ := hrun
        rw [swapSupporting_cons hne h0 hp h₀ (hbal p hp), hy, ok_bind, hhop, ok_bind]
        have htrade' : trade env w a b y hop = .ok ((), w₁) := htrade
        rw [htrade', ok_bind]
        exact (hrest hne hhop htrade').mpr ⟨_, hq, hrun⟩

/-- The hops bring an account outside the pools the last amount if it is the
recipient, and nothing otherwise. -/
theorem swapAmounts_paid {amounts : List Nat} {bought : Nat} {last t : Address}
    (hstd : ∀ t ∈ path, Standard env t) (hnd : (poolsOf env path).Nodup)
    (hlev : Level env w x path) (htwo : 2 ≤ path.length) (hlen : amounts.length = path.length)
    (hrun : swapAmounts env dst w amounts path = .ok w') (hlast : path.getLast? = some last)
    (hbought : amounts.getLast? = some bought) (hc : c ∉ poolsOf env path) :
    w'.balanceOf t c = w.balanceOf t c + if t = last ∧ c = dst then bought else 0 := by
  induction path generalizing w x amounts with
  | nil => simp at htwo
  | cons a path ih =>
    rcases path with _ | ⟨b, rest⟩
    · simp at htwo
    · obtain ⟨first, y, ys, rfl⟩ : ∃ first y ys, amounts = first :: y :: ys := by
        rcases amounts with _ | ⟨first, _ | ⟨y, ys⟩⟩
        · simp at hlen
        · simp at hlen
        · exact ⟨first, y, ys, rfl⟩
      have ha := hstd a List.mem_cons_self
      have hb := hstd b (List.mem_cons_of_mem _ List.mem_cons_self)
      have hrun' := hrun
      simp only [swapAmounts, bind_eq_ok, sortTokens_eq_ok] at hrun'
      obtain ⟨-, ⟨hne, h0, -⟩, hop, hhop, -⟩ := hrun'
      rw [swapAmounts_cons hne h0 hhop, bind_eq_ok] at hrun
      obtain ⟨⟨⟨⟩, w₁⟩, htrade, hrun⟩ := hrun
      obtain ⟨q, hpair, htok, -⟩ := trade_ok hne ha hb hlev.1 htrade
      obtain ⟨hcp, hc'⟩ := not_or.mp (mt List.mem_cons.mpr hc)
      have hstep : w₁.balanceOf t c = w.balanceOf t c + if t = b ∧ c = hop then y else 0 := by
        rw [World.balanceOf, htok]
        exact balanceOf_moved hcp
      rcases rest with _ | ⟨d, rest⟩
      · obtain rfl : ys = [] := by simpa using hlen
        obtain rfl := Except.ok.inj hhop
        obtain rfl := Except.ok.inj hrun
        obtain rfl := Option.some.inj hlast
        obtain rfl := Option.some.inj hbought
        exact hstep
      · obtain ⟨z, ys, rfl⟩ : ∃ z zs, ys = z :: zs := by
          rcases ys with _ | ⟨z, zs⟩
          · simp at hlen
          · exact ⟨z, zs, rfl⟩
        obtain ⟨-, -, rfl⟩ := pairFor_eq_ok.mp hhop
        rw [List.getLast?_cons_cons] at hlast hbought
        have hcn : c ≠ pool env b d := fun h => hc' (h ▸ List.mem_cons_self ..)
        rw [if_neg (fun h => hcn h.2), Nat.add_zero] at hstep
        rw [ih (fun t ht => hstd t (List.mem_cons_of_mem _ ht)) (List.nodup_cons.mp hnd).2
          (hlev.step hnd hpair htok) (by simp) (by simpa using hlen) hrun hlast hbought hc', hstep]

theorem safeTransferFrom_ok {t src : Address} (hs : Standard env t)
    (h : TransferHelper.safeTransferFrom env w t src dst x = .ok w₁) :
    w₁.pair = w.pair ∧ ∀ u c, w₁.balanceOf u c = (w.moved t src dst x).balanceOf u c := by
  rw [TransferHelper.safeTransferFrom, orFail_eq_ok, World.transferFrom, bind_eq_ok] at h
  obtain ⟨t', hspend, hmove⟩ := h
  have hbal := spendAllowance_balance hspend
  obtain ⟨-, -, rfl⟩ := (World.transfer_eq_ok hs).mp hmove
  refine ⟨rfl, fun u c => ?_⟩
  by_cases hu : u = t
  · subst hu
    rw [World.balanceOf, World.balanceOf, World.moved_token, World.moved_token,
      World.setToken_token, hbal]
  · rw [World.balanceOf_moved_of_ne _ _ _ _ hu, World.balanceOf_moved_of_ne _ _ _ _ hu,
      World.balanceOf_setToken_of_ne _ hu]

theorem Level.raised (h : Level env w 0 path) (hnd : (poolsOf env path).Nodup)
    (hpair : w₁.pair = w.pair) (hbal : ∀ t, ∀ q ∈ poolsOf env path, w₁.balanceOf t q =
      w.balanceOf t q + if path.head? = some t ∧ (poolsOf env path).head? = some q then x else 0) :
    Level env w₁ x path := by
  match path, h with
  | [], _ => trivial
  | [_], _ => trivial
  | a :: b :: rest, ⟨htr, hin, hrest⟩ =>
    have hmem : pool env a b ∈ poolsOf env (a :: b :: rest) := List.mem_cons_self ..
    refine ⟨fun p hp => htr p (hpair ▸ hp), fun p hp => ?_, hrest.congr fun q hq => ?_⟩
    · rw [hbal a _ hmem, hin p (hpair ▸ hp)]
      simp [poolsOf]
    · have hne : pool env a b ≠ q := ne_of_mem_of_not_mem hq (List.nodup_cons.mp hnd).1 |>.symm
      refine ⟨by rw [hpair], fun t => ?_⟩
      rw [hbal t q (List.mem_cons_of_mem _ hq)]
      simp [poolsOf, hne]

theorem Level.pay (h : Level env w 0 (a :: b :: rest)) (ha : Standard env a)
    (hnd : (poolsOf env (a :: b :: rest)).Nodup) (hs : sender ∉ poolsOf env (a :: b :: rest))
    (hpay : payFirst env w sender (a :: b :: rest) x = .ok w₁) :
    w₁.pair = w.pair ∧ Level env w₁ x (a :: b :: rest) := by
  simp only [payFirst, pathAt, List.getElem?_cons_zero, List.getElem?_cons_succ, ok_bind,
    bind_eq_ok, pairFor_eq_ok] at hpay
  obtain ⟨_, ⟨hne, -, rfl⟩, hpay⟩ := hpay
  obtain ⟨hpair, hbal⟩ := safeTransferFrom_ok ha hpay
  refine ⟨hpair, h.raised hnd hpair fun t q hq => ?_⟩
  rw [hbal, balanceOf_moved (ne_of_mem_of_not_mem hq hs)]
  simp [poolsOf, eq_comm]

theorem payFirst_two {amount : Nat} (h : payFirst env w sender path amount = .ok w₁) :
    2 ≤ path.length := by
  match path with
  | [] => simp [payFirst, pathAt] at h
  | [_] => simp [payFirst, pathAt] at h
  | _ :: _ :: _ => simp

/-- Measured at the recipient, the bound holds exactly if it does of the
amount quoted last. -/
theorem swapMeasured_iff {amountOutMin : Nat} (hstd : ∀ t ∈ path, Standard env t)
    (hnd : (poolsOf env path).Nodup) (hlev : Level env w x path) (htwo : 2 ≤ path.length)
    (hd : dst ∉ poolsOf env path) :
    swapMeasured env w path dst amountOutMin = .ok w' ↔
      ∃ amounts bought, amountsOut env w x path = .ok amounts ∧
        amounts.getLast? = some bought ∧ amountOutMin ≤ bought ∧
        swapAmounts env dst w amounts path = .ok w' := by
  have hne : path ≠ [] := List.ne_nil_of_length_pos (by omega)
  have hlast : lastToken path = .ok (path.getLast hne) :=
    lastToken_eq_ok.mpr (List.getLast?_eq_some_getLast hne)
  have hgain : ∀ {amounts bought}, amountsOut env w x path = .ok amounts →
      amounts.getLast? = some bought → swapAmounts env dst w amounts path = .ok w' →
      w'.balanceOf (path.getLast hne) dst = w.balanceOf (path.getLast hne) dst + bought := by
    intro amounts bought hq hbought hrun
    rw [swapAmounts_paid hstd hnd hlev htwo (amountsOut_shape hq hne).1 hrun
      (List.getLast?_eq_some_getLast hne) hbought hd, if_pos ⟨rfl, rfl⟩]
  simp only [swapMeasured, hlast, ok_bind, bind_eq_ok, SafeMath.sub_eq_ok, require_eq_ok,
    pure_eq_ok, Except.ok.injEq]
  constructor
  · rintro ⟨_, hrun, _, ⟨hle, rfl⟩, -, hmin, rfl⟩
    obtain ⟨amounts, hq, hrun⟩ := (swapSupporting_iff hstd hnd hlev).mp hrun
    have hne' : amounts ≠ [] := List.ne_nil_of_length_pos (by
      have := (amountsOut_shape hq hne).1
      omega)
    have hbought := List.getLast?_eq_some_getLast hne'
    have := hgain hq hbought hrun
    exact ⟨amounts, _, hq, hbought, by omega, hrun⟩
  · rintro ⟨amounts, bought, hq, hbought, hmin, hrun⟩
    have := hgain hq hbought hrun
    exact ⟨w', (swapSupporting_iff hstd hnd hlev).mpr ⟨amounts, hq, hrun⟩, _, ⟨by omega, rfl⟩, (),
      by omega, rfl⟩

/-- Over standard tokens and level pools the two ways to sell an exact input
succeed in the same cases and leave the same world. -/
theorem supporting_agrees (hstd : ∀ t ∈ path, Standard env t) (hnd : (poolsOf env path).Nodup)
    (hlev : Level env w 0 path) (hs : sender ∉ poolsOf env path) (hd : dst ∉ poolsOf env path)
    (amountIn amountOutMin deadline : Nat) (w' : World) :
    swapExactTokensForTokensSupportingFeeOnTransferTokens env w sender amountIn amountOutMin path
        dst deadline = .ok ((), w') ↔
      ∃ amounts, swapExactTokensForTokens env w sender amountIn amountOutMin path dst deadline =
        .ok (amounts, w') := by
  -- both pay first, and the pools they then meet are those that were quoted
  have hpaid : ∀ {w₁}, payFirst env w sender path amountIn = .ok w₁ →
      (swapMeasured env w₁ path dst amountOutMin = .ok w' ↔
        ∃ amounts bought, amountsOut env w amountIn path = .ok amounts ∧
          amounts.getLast? = some bought ∧ amountOutMin ≤ bought ∧
          swapAmounts env dst w₁ amounts path = .ok w') := by
    intro w₁ hpay
    have htwo := payFirst_two hpay
    obtain ⟨a, b, rest, rfl⟩ := exists_two htwo
    obtain ⟨hpair, hlev₁⟩ := hlev.pay (hstd a List.mem_cons_self) hnd hs hpay
    have hquote : amountsOut env w₁ amountIn (a :: b :: rest) =
      amountsOut env w amountIn (a :: b :: rest) := amountsOut_congr fun q _ => by rw [hpair]
    rw [swapMeasured_iff hstd hnd hlev₁ htwo hd, hquote]
  simp only [swapExactTokensForTokensSupportingFeeOnTransferTokens, swapExactTokensForTokens,
    getAmountsOut, bind_eq_ok, require_eq_ok, lastAmount_eq_ok, firstAmount_eq_ok, pure_eq_ok,
    Except.ok.injEq, Prod.mk.injEq, true_and]
  constructor
  · rintro ⟨u, hens, w₁, hpay, _, hrun, rfl⟩
    have htwo := payFirst_two hpay
    obtain ⟨amounts, bought, hq, hbought, hmin, hrun⟩ := (hpaid hpay).mp hrun
    have hhead := (amountsOut_shape hq (List.ne_nil_of_length_pos (by omega))).2
    exact ⟨amounts, u, hens, amounts, ⟨(), htwo, hq⟩, bought, hbought, (), hmin, amountIn, hhead, w₁,
      hpay, _, hrun, rfl, rfl⟩
  · rintro ⟨_, u, hens, amounts, ⟨-, htwo, hq⟩, bought, hbought, -, hmin, first, hfirst, w₁, hpay, _,
      hrun, rfl, rfl⟩
    have hhead := (amountsOut_shape hq (List.ne_nil_of_length_pos (by omega))).2
    obtain rfl := Option.some.inj (hhead.symm.trans hfirst)
    exact ⟨u, hens, w₁, hpay, _, (hpaid hpay).mpr ⟨amounts, bought, hq, hbought, hmin, hrun⟩, rfl⟩

def levelToken (t : Address) : ArkSwapERC20 :=
  (issued (issued (issued .initial (pool hashEnv 4 5) (if t = 4 then 50000 else 80000))
    (pool hashEnv 5 8) (if t = 5 then 50000 else 80000)) 7 5000).approve 7 2 9000

def levelMarket : World := { market with token := levelToken }

theorem levelMarket_level : Level hashEnv levelMarket 0 [4, 5, 8] := by
  have h₁ : levelMarket.pair (pool hashEnv 4 5) = some (tradedPair 4 5) := by decide +kernel
  have h₂ : levelMarket.pair (pool hashEnv 5 8) = some (tradedPair 5 8) := by decide +kernel
  refine ⟨fun p hp => ?_, fun p hp => ?_, fun p hp => ?_, fun p hp => ?_, trivial⟩
  · obtain rfl := Option.some.inj (h₁.symm.trans hp)
    exact ⟨by decide, by decide⟩
  · obtain rfl := Option.some.inj (h₁.symm.trans hp)
    decide +kernel
  · obtain rfl := Option.some.inj (h₂.symm.trans hp)
    exact ⟨by decide, by decide⟩
  · obtain rfl := Option.some.inj (h₂.symm.trans hp)
    decide +kernel

theorem levelMarket_agrees :
    ∃ w', swapExactTokensForTokensSupportingFeeOnTransferTokens hashEnv levelMarket 7 1000 2400
        [4, 5, 8] 9 0 = .ok ((), w') ∧
      swapExactTokensForTokens hashEnv levelMarket 7 1000 2400 [4, 5, 8] 9 0 =
        .ok ([1000, 1564, 2419], w') := by
  have hok : (swapExactTokensForTokens hashEnv levelMarket 7 1000 2400 [4, 5, 8] 9 0).map
      Prod.fst = .ok [1000, 1564, 2419] := by decide +kernel
  cases hrun : swapExactTokensForTokens hashEnv levelMarket 7 1000 2400 [4, 5, 8] 9 0 with
  | error e =>
    rw [hrun] at hok
    cases hok
  | ok r =>
    obtain ⟨amounts, w'⟩ := r
    rw [hrun] at hok
    obtain rfl := Except.ok.inj hok
    exact ⟨w', (supporting_agrees (fun _ _ _ _ _ => rfl) (by decide +kernel) levelMarket_level
      (by decide +kernel) (by decide +kernel) 1000 2400 0 w').mpr ⟨_, hrun⟩, rfl⟩

end ArkSwap
