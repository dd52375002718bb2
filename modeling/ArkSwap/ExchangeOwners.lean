import ArkSwap.ExchangeRun

/-! What an account owns while it neither calls nor signs anything, whatever all others do. -/

namespace ArkSwap

open Checked ArkSwapPair

namespace Exchange

variable {env : Env} {fees : Prop} {absent busy : Set Address} {w w' w'' : World}
variable {o token src dst : Address} {value : Nat} {t : ArkSwapERC20}

/-- Of each token an account loses no more than others were let spend of it, and as much less
they may spend from then on; an allowance without limit is not used up. -/
structure Spares (o : Address) (w w' : World) : Prop where
  allowance : ∀ t s, (w'.token t).allowance o s ≤ (w.token t).allowance o s
  balance : ∀ t, (∀ s, (w.token t).allowance o s < 2 ^ 256 - 1) →
    w.balanceOf t o + ∑ s, (w'.token t).allowance o s ≤
      w'.balanceOf t o + ∑ s, (w.token t).allowance o s
  native : w.native o ≤ w'.native o

theorem Spares.trans (h : Spares o w w') (h' : Spares o w' w'') : Spares o w w'' where
  allowance t s := (h'.allowance t s).trans (h.allowance t s)
  balance t hlim := by
    have hfirst := h.balance t hlim
    have hthen := h'.balance t fun s => (h.allowance t s).trans_lt (hlim s)
    omega
  native := h.native.trans h'.native

/-- What is left to others stays, and nothing is taken. -/
theorem Spares.of_kept (ha : ∀ t s, (w'.token t).allowance o s = (w.token t).allowance o s)
    (hb : ∀ t, w.balanceOf t o ≤ w'.balanceOf t o) (hn : w.native o ≤ w'.native o) :
    Spares o w w' where
  allowance t s := (ha t s).le
  balance t _ := by
    simp only [ha t]
    exact Nat.add_le_add_right (hb t) _
  native := hn

theorem Spares.of_eq (ht : w'.token = w.token) (hn : w.native o ≤ w'.native o) : Spares o w w' :=
  .of_kept (fun _ _ => by rw [ht]) (fun _ => by rw [World.balanceOf, World.balanceOf, ht]) hn

theorem Spares.refl (w : World) : Spares o w w := .of_eq rfl (le_refl _)

theorem Spares.setToken (ha : ∀ s, t.allowance o s ≤ (w.token token).allowance o s)
    (hb : (∀ s, (w.token token).allowance o s < 2 ^ 256 - 1) →
      (w.token token).balanceOf o + ∑ s, t.allowance o s ≤
        t.balanceOf o + ∑ s, (w.token token).allowance o s) :
    Spares o w (w.setToken token t) where
  allowance c s := by
    by_cases hc : c = token
    · subst hc
      rw [World.setToken_token]
      exact ha s
    · rw [World.setToken_token_of_ne hc]
  balance c hlim := by
    by_cases hc : c = token
    · subst hc
      rw [World.balanceOf_setToken, World.setToken_token]
      exact hb hlim
    · rw [World.balanceOf_setToken_of_ne _ hc, World.setToken_token_of_ne hc]
  native := le_refl _

theorem Spares.setToken_kept (ha : t.allowance o = (w.token token).allowance o)
    (hb : (w.token token).balanceOf o ≤ t.balanceOf o) : Spares o w (w.setToken token t) :=
  .setToken (fun s => by rw [ha]) fun _ => by rw [ha]; exact Nat.add_le_add_right hb _

section Calls

theorem moved_spares (hne : o ≠ src) : Spares o w (w.moved token src dst value) :=
  .setToken_kept rfl (Ledger.le_move hne)

theorem transfer_spares (hs : ∀ t, Standard env t) (hne : o ≠ src)
    (h : w.transfer env token src dst value = .ok w') : Spares o w w' := by
  obtain ⟨-, -, rfl⟩ := (World.transfer_eq_ok (hs token)).mp h
  exact moved_spares hne

/-- Whoever spends tokens of another account uses up its allowance. -/
theorem spent_spares {spender : Address} (ha : (w.token token).allowance o spender = 2 ^ 256 - 1 ∧
      t.allowance = (w.token token).allowance ∨
    value ≤ (w.token token).allowance o spender ∧
      t.allowance o = Ledger.debit ((w.token token).allowance o) spender value)
    (hb : (w.token token).balanceOf o - value ≤ t.balanceOf o) :
    Spares o w (w.setToken token t) := by
  refine .setToken (fun s => ?_) fun hlim => ?_
  · rcases ha with ⟨-, ha⟩ | ⟨-, ha⟩
    · rw [ha]
    · rw [ha]
      exact Ledger.debit_le _ _ _ _
  · rcases ha with ⟨hmax, -⟩ | ⟨hle, ha⟩
    · exact absurd hmax (hlim spender).ne
    · have hsum := Ledger.sum_debit hle
      rw [ha]
      omega

theorem transferFrom_spares (hs : ∀ t, Standard env t) {spender : Address} (hne : o ≠ spender)
    (h : w.transferFrom env token spender src dst value = .ok w') : Spares o w w' := by
  rw [World.transferFrom, bind_eq_ok] at h
  obtain ⟨t, hspend, h⟩ := h
  obtain ⟨-, -, rfl⟩ := (World.transfer_eq_ok (hs token)).mp h
  rw [World.moved, World.setToken_token, World.setToken_setToken]
  rw [World.spendAllowance, ite_eq_ok, Except.ok.injEq] at hspend
  rcases hspend with ⟨⟨-, rfl⟩, rfl⟩ | ⟨-, hspend⟩
  · exact .setToken_kept rfl (Ledger.le_move hne)
  · obtain ⟨-, hb, -, hspent⟩ := ArkSwapERC20.spendAllowance_ok hspend
    by_cases hsrc : o = src
    · subst hsrc
      have hfell : (w.token token).balanceOf o - value ≤ Ledger.move t.balanceOf o dst value o := by
        rw [← hb]
        exact Ledger.le_move_src _ _ _ _
      rcases hspent with ⟨hmax, rfl⟩ | ⟨hle, rfl⟩
      · exact spent_spares (.inl ⟨hmax, rfl⟩) hfell
      · exact spent_spares (.inr ⟨hle, Function.update_self ..⟩) hfell
    · refine .setToken_kept ?_ (by rw [hb]; exact Ledger.le_move hsrc)
      rcases hspent with ⟨-, rfl⟩ | ⟨-, rfl⟩
      · rfl
      · exact Function.update_of_ne hsrc _ _

theorem approve_spares {owner spender : Address} (hne : o ≠ owner)
    (ha : t.allowance = (w.token token).allowance) (hb : t.balanceOf = (w.token token).balanceOf) :
    Spares o w (w.setToken token (t.approve owner spender value)) := by
  refine .setToken_kept ?_ (by rw [ArkSwapERC20.approve_balanceOf, hb])
  rw [← ha]
  exact Function.update_of_ne hne _ _

theorem permit_spares {owner spender : Address} {deadline v r s : Nat} (hne : o ≠ owner)
    (h : (w.token token).permit env token w.timestamp owner spender value deadline v r s = .ok t) :
    Spares o w (w.setToken token t) := by
  obtain ⟨-, -, -, rfl⟩ := ArkSwapERC20.permit_ok h
  exact approve_spares hne rfl rfl

theorem issue_spares (h : (w.token token).mint dst value = .ok t) :
    Spares o w (w.setToken token t) := by
  obtain ⟨-, -, rfl⟩ := ArkSwapERC20.mint_eq_ok.mp h
  exact .setToken_kept rfl (Ledger.le_credit _ _ _ _)

theorem send_spares (hne : o ≠ src) : Spares o w (w.moveNative src dst value) :=
  .of_eq rfl (Ledger.le_move hne)

theorem deposit_spares (hne : o ≠ src) (h : WKASH.deposit env w src value = .ok w') :
    Spares o w w' := by
  simp only [WKASH.deposit, bind_eq_ok, require_eq_ok, pure_eq_ok, Except.ok.injEq] at h
  obtain ⟨-, -, t, hmint, rfl⟩ := h
  exact (send_spares hne).trans (issue_spares hmint)

theorem unwrap_spares (hne : o ≠ src) (hweth : o ≠ env.WETH)
    (h : WKASH.unwrap env w src value = .ok w') : Spares o w w' := by
  obtain ⟨t, hburn, -, -, rfl⟩ := WKASH.unwrap_eq_ok.mp h
  have hburned : Spares o w (w.setToken env.WETH t) := by
    obtain ⟨-, -, rfl⟩ := ArkSwapERC20.burn_eq_ok.mp hburn
    exact .setToken_kept rfl (Ledger.debit_of_ne _ _ hne).ge
  exact hburned.trans (send_spares hweth)

/-- A pair's shares begin with an empty ledger, and nobody holds any before. -/
theorem createPair_spares (h : Ordered env busy w) {tokenA tokenB pair : Address}
    (hc : ArkSwapFactory.createPair env w tokenA tokenB = .ok (pair, w')) : Spares o w w' := by
  obtain ⟨_, _, -, -, haddr, hnone, -, htok, hnative, -⟩ := createPair_deploys hc
  have hempty : (w.token pair).balanceOf o = 0 := by
    have hle := Ledger.le_sum (w.token pair).balanceOf o
    rw [(h.conserved pair).1, h.vacant pair ⟨_, _, haddr⟩ hnone] at hle
    exact Nat.le_zero.mp hle
  have hset : Spares o w (w.setToken pair .initial) := by
    refine .setToken (fun _ => Nat.zero_le _) fun _ => ?_
    rw [hempty]
    simp [ArkSwapERC20.initial]
  exact hset.trans (.of_eq htok (hnative ▸ le_refl _))

theorem Inside.spares {b : Address} (h : Inside b w w') (hne : o ≠ b) : Spares o w w' :=
  .of_kept (fun t s => by rw [h.allowance]) (fun t => h.held t o hne) (h.native ▸ le_refl _)

end Calls

variable {b : Address} {p : ArkSwapPair}

/-- The pair lends, and takes back what is its own; between the two the callback runs. -/
theorem swap_spares (hs : Grounds env) (h : Ordered env busy w) (hpool : ¬Pooled env o)
    {sender : Address} {amount0Out amount1Out : Nat}
    {data : Option (World → Except String World)}
    (hback : ∀ arkSwapCall, data = some arkSwapCall → ∀ u v, arkSwapCall u = .ok v →
      ∀ busy, Ordered env busy u → Spares o u v)
    (hm : ArkSwapPair.swap env w b sender amount0Out amount1Out dst data = .ok ((), w')) :
    Spares o w w' := by
  obtain ⟨-, p, hp, hplaced, hsound⟩ := h.free hm
  have hne : o ≠ b := fun hob => hpool (hob ▸ hplaced.pooled)
  obtain ⟨hlend, w₁, _, _, _, hcall, hsettle, -, -⟩ := swap_inside (hplaced.deployed hs) hsound hm
  have hrun : Spares o (lent w b dst p amount0Out amount1Out) w₁ := by
    cases data with
    | none =>
      obtain rfl := Except.ok.inj hcall
      exact .refl _
    | some arkSwapCall => exact hback arkSwapCall rfl _ w₁ hcall _ (h.lend hs hp hlend)
  exact ((hlend.spares hne).trans hrun).trans (hsettle.spares hne)

/-- The other calls of a pair pay out what the pair itself holds. -/
theorem pair_spares (h : Ordered env busy w) (hpool : ¬Pooled env o) {α : Type} {x : α}
    {body : World → Except String (α × World)} (hl : lock w b body = .ok (x, w'))
    (hinside : ∀ p, Placed env w b p → Sound b p.token0 p.token1 w p → Inside b w w') :
    Spares o w w' := by
  obtain ⟨-, p, -, hplaced, hsound⟩ := h.free hl
  exact (hinside p hplaced hsound).spares fun hob => hpool (hob ▸ hplaced.pooled)

theorem spares_of_reach (hs : Grounds env) (ho : o ∈ absent) (hweth : o ≠ env.WETH)
    (hpool : ¬Pooled env o) (h : Reach env fees absent w w') :
    ∀ busy, Ordered env busy w → Spares o w w' := by
  have hother : ∀ src : Account env absent, o ≠ src := fun src =>
    ne_of_mem_of_not_mem ho src.2.2.2.2
  induction h with
  | refl w => exact fun _ _ => .refl w
  | trans h _ ih ih' =>
    exact fun busy hw => (ih busy hw).trans (ih' busy (keeps_of_reach hs h busy hw).ordered)
  | transfer src hx => exact fun _ _ => transfer_spares hs.standard (hother src) hx
  | transferFrom spender hx => exact fun _ _ => transferFrom_spares hs.standard (hother spender) hx
  | approve w token owner => exact fun _ _ => approve_spares (hother owner) rfl rfl
  | permit howner hx => exact fun _ _ => permit_spares (ne_of_mem_of_not_mem ho howner) hx
  | issue token hx => exact fun _ _ => issue_spares hx
  | deposit src hx => exact fun _ _ => deposit_spares (hother src) hx
  | unwrap src hx => exact fun _ _ => unwrap_spares (hother src) hweth hx
  | send src => exact fun _ _ => send_spares (hother src)
  | createPair hx => exact fun _ hw => createPair_spares hw hx
  | setFeeTo => exact fun _ _ => .of_eq rfl (le_refl _)
  | setFeeToSetter => exact fun _ _ => .of_eq rfl (le_refl _)
  | mint hx => exact fun _ hw => pair_spares hw hpool hx fun _ _ hsound => mint_inside hsound hx
  | burn hx =>
    exact fun _ hw => pair_spares hw hpool hx fun _ hplaced hsound =>
      burn_inside (hplaced.deployed hs) hsound hx
  | swap _ hx ih => exact fun _ hw => swap_spares hs hw hpool ih hx
  | skim hx =>
    exact fun _ hw => pair_spares hw hpool hx fun _ hplaced hsound =>
      skim_inside (hplaced.deployed hs) hsound hx
  | sync hx => exact fun _ hw => pair_spares hw hpool hx fun _ _ hsound => sync_inside hsound hx

theorem step_spares (hs : Grounds env) (h : Ordered env ∅ w) (ho : o ∈ absent)
    (hweth : o ≠ env.WETH) (hpool : ¬Pooled env o) (tx : Nat × Transaction env fees absent) :
    Spares o w (step w tx) := by
  have htime : Spares o w { w with timestamp := tx.1 } := .of_eq rfl (le_refl _)
  rw [step]
  rcases hx : tx.2.val { w with timestamp := tx.1 } with e | w'
  · rwa [attempt_error]
  · rw [attempt_ok]
    exact htime.trans
      (spares_of_reach hs ho hweth hpool (tx.2.property _ _ hx) ∅ (h.at_time tx.1))

theorem run_spares (hs : Grounds env) (h : Ordered env ∅ w) (ho : o ∈ absent)
    (hweth : o ≠ env.WETH) (hpool : ¬Pooled env o)
    (txs : List (Nat × Transaction env fees absent)) : Spares o w (run w txs) :=
  (Run.run_inv (fun w' => Ordered env ∅ w' ∧ Spares o w w')
    (fun _ tx hk => ⟨(step_keeps hs hk.1 tx).ordered,
      hk.2.trans (step_spares hs hk.1 ho hweth hpool tx)⟩) ⟨h, .refl w⟩ txs).2

section Site

variable (hlp : ∀ a ∈ absent, a = 9)

def endower : RouterCall.Trader siteEnv absent :=
  ⟨⟨7, by decide, by decide, siteEnv_free (by decide), fun h => absurd (hlp 7 h) (by decide)⟩,
    (by decide : (7 : Address) ≠ siteEnv.router)⟩

theorem siteRouter_present (hlp : ∀ a ∈ absent, a = 9) : siteEnv.router ∉ absent := fun h => absurd (hlp _ h) (by decide)

/-- The pair of tokens 4 and 5 is created, and account 9 gets its shares. -/
def endowing : List (Nat × Transaction siteEnv fees absent) :=
  [(2, RouterCall.transaction (siteEnv_premises (siteRouter_present hlp)) (endower hlp)
    (.addLiquidity 4 5 4000 4000 0 0 9 9))]

def exploiting : List (Nat × Transaction siteEnv fees absent) :=
  [(3, RouterCall.transaction (siteEnv_premises (siteRouter_present hlp)) (endower hlp)
    (.swapExactTokensForTokens 1000 0 [4, 5] 8 9))]

theorem siteWorld_allowance (token s : Address) : (siteWorld.token token).allowance 9 s = 0 := by
  unfold siteWorld
  dsimp only
  split <;> rfl

theorem nobody_absent : ∀ a ∈ (∅ : Set Address), a = 9 := fun _ h => h.elim

theorem owner_absent : ∀ a ∈ ({9} : Set Address), a = 9 := fun _ h => h

def endowed : World :=
  run siteWorld (endowing nobody_absent : List (Nat × Transaction siteEnv True ∅))

def exploited : World :=
  run endowed (exploiting owner_absent : List (Nat × Transaction siteEnv False {9}))

theorem endowed_result : endowed.factory.feeTo = 0 ∧ 0 < endowed.balanceOf 10 9 ∧
    0 < (endowed.token 10).totalSupply ∧ (endowed.pair 10).isSome = true ∧
    endowed.pair 10 ≠ exploited.pair 10 := by
  decide +kernel

/-- Account 9 is away from the beginning on, and lets nobody spend anything. -/
theorem endowed_allowance (token s : Address) : (endowed.token token).allowance 9 s = 0 := by
  have hspares : Spares 9 siteWorld endowed :=
    run_spares siteEnv_grounds siteWorld_genesis.ordered (Set.mem_singleton (9 : Address)) (by decide)
      (siteEnv_free (by decide)) (endowing owner_absent : List (Nat × Transaction siteEnv True {9}))
  exact Nat.le_zero.mp ((hspares.allowance token s).trans_eq (siteWorld_allowance token s))

end Site

/-- What an account that is away owns: pairs, tokens and the router let nobody have more of it
than the account had let them spend, whatever all others do and however they nest it. -/
theorem absent_spared (hs : Grounds env) (h : Genesis env w)
    (before : List (Nat × Transaction env True ∅)) (after : List (Nat × Transaction env True absent))
    (ho : o ∈ absent) (hweth : o ≠ env.WETH) (hpool : ¬Pooled env o) :
    Spares o (run w before) (run (run w before) after) :=
  run_spares hs (run_keeps hs h.ordered before).ordered ho hweth hpool after

theorem endowed_spared : Spares 9 endowed
    (run endowed (exploiting owner_absent : List (Nat × Transaction siteEnv True {9}))) ∧
    0 < endowed.balanceOf 10 9 :=
  ⟨absent_spared siteEnv_grounds siteWorld_genesis (endowing nobody_absent)
    (exploiting owner_absent) rfl (by decide) (siteEnv_free (by decide)), endowed_result.2.1⟩

/-- Shares that nobody else may spend are worth no less after all that happens while their
owner is away and the protocol takes no fee. -/
theorem absent_share_keeps_worth (hs : Grounds env) (h : Genesis env w)
    (before : List (Nat × Transaction env True ∅)) (after : List (Nat × Transaction env False absent))
    (hfee : (run w before).factory.feeTo = 0) (ho : o ∈ absent) (hweth : o ≠ env.WETH)
    (hpool : ¬Pooled env o) {a : Address} {p : ArkSwapPair} (hp : (run w before).pair a = some p)
    (hS : 0 < ((run w before).token a).totalSupply)
    (hnone : ∀ s, ((run w before).token a).allowance o s = 0) :
    ∃ q, (run (run w before) after).pair a = some q ∧
      0 < ((run (run w before) after).token a).totalSupply ∧
      p.reserve0 * p.reserve1 * (run w before).balanceOf a o ^ 2 *
          ((run (run w before) after).token a).totalSupply ^ 2 ≤
        q.reserve0 * q.reserve1 * (run (run w before) after).balanceOf a o ^ 2 *
          ((run w before).token a).totalSupply ^ 2 := by
  have hbefore := (run_keeps hs h.ordered before).ordered
  obtain ⟨q, hq, hc⟩ := (run_keeps hs hbefore after).carried a p hp
  have hspares := run_spares hs hbefore ho hweth hpool after
  have hheld := hspares.balance a fun s => by rw [hnone s]; norm_num
  have hnone' : ∀ s, ((run (run w before) after).token a).allowance o s = 0 :=
    fun s => Nat.le_zero.mp ((hspares.allowance a s).trans_eq (hnone s))
  simp only [hnone, hnone', Finset.sum_const_zero, Nat.add_zero] at hheld
  exact ⟨q, hq, hc.minted hS, (hc.worth not_false hfee hS).stake hheld⟩

theorem endowed_share_keeps_worth : ∃ p q, endowed.pair 10 = some p ∧ exploited.pair 10 = some q ∧
    p ≠ q ∧ 0 < (exploited.token 10).totalSupply ∧
      p.reserve0 * p.reserve1 * endowed.balanceOf 10 9 ^ 2 *
        (exploited.token 10).totalSupply ^ 2 ≤
      q.reserve0 * q.reserve1 * exploited.balanceOf 10 9 ^ 2 *
        (endowed.token 10).totalSupply ^ 2 := by
  obtain ⟨hfee, -, hminted, hsome, hmoved⟩ := endowed_result
  obtain ⟨p, hp⟩ := Option.isSome_iff_exists.mp hsome
  obtain ⟨q, hq, hworth⟩ := absent_share_keeps_worth siteEnv_grounds siteWorld_genesis
    (endowing nobody_absent) (exploiting owner_absent) hfee rfl (by decide)
    (siteEnv_free (by decide)) hp hminted (endowed_allowance 10)
  refine ⟨p, q, hp, hq, ?_, hworth⟩
  rintro rfl
  exact hmoved (hp.trans hq.symm)

end Exchange

end ArkSwap
