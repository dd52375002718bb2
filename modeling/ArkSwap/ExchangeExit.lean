import ArkSwap.ExchangeRun

/-! Leaving a pool: what a withdrawal through the router takes, when it succeeds, and that
those who leave take nothing from those who stay. -/

namespace ArkSwap

open Checked ArkSwapPair ArkSwapLibrary ArkSwapRouter02

namespace ArkSwapPair

/-- The growth since a record just made is none. -/
theorem protocolFee_recorded (feeTo : Address) (supply r₀ r₁ : Nat) :
    protocolFee (recordedK feeTo r₀ r₁) feeTo supply r₀ r₁ = 0 := by
  unfold protocolFee recordedK
  by_cases hfee : feeTo = 0
  · rw [if_pos (.inl hfee)]
  · rw [if_neg hfee, Nat.sub_self, Nat.mul_zero, Nat.zero_div, ite_self]

theorem feeLedger_recorded {w : World} {self : Address} {p : ArkSwapPair}
    (h : p.kLast = recordedK w.factory.feeTo p.reserve0 p.reserve1) :
    feeLedger w self p = w.token self := by
  rw [feeLedger, h, protocolFee_recorded, issued_zero]

end ArkSwapPair

namespace Exchange

/-- What the pair at an address pays in a token for shares that it is sent. -/
def owed (w : World) (self : Address) (shares : Nat) (token : Address) : Nat :=
  match w.pair self with
  | some p => shares * w.balanceOf token self / (feeLedger w self p).totalSupply
  | none => 0

/-- A token of a pair after it redeemed the shares that it was sent. -/
structure Redeems (pair dst : Address) (w w' : World) (token : Address) (amount : Nat) : Prop where
  share : amount = owed w pair (w.balanceOf pair pair) token
  ledger : (w'.token token).balanceOf = Ledger.move (w.token token).balanceOf pair dst amount

theorem owed_eq {w : World} {self : Address} {p : ArkSwapPair} (hp : w.pair self = some p)
    (shares : Nat) (token : Address) :
    owed w self shares token = shares * w.balanceOf token self / (feeLedger w self p).totalSupply := by
  rw [owed, hp]

variable {env : Env} {fees : Prop} {absent : Set Address} {w w' : World}
variable {sender dst a b : Address} {liquidity minA minB deadline x y : Nat} {p : ArkSwapPair}

/-- The registry has the pair of two tokens where the router looks for it. -/
structure Registered (env : Env) (w : World) (a b : Address) : Prop where
  getPair : w.factory.getPair a b = pool env a b
  nonzero : pool env a b ≠ 0

theorem Registered.pair (hr : Registered env w a b) (h : Ordered env ∅ w) :
    ∃ p, w.pair (pool env a b) = some p ∧ p.token0 = min a b ∧ p.token1 = max a b ∧ a ≠ b ∧
      min a b ≠ 0 := by
  have hget : w.factory.getPair a b ≠ 0 := hr.getPair ▸ hr.nonzero
  obtain ⟨at', hlisted, p, hp, hfor⟩ := (h.registry.listed a b).mp hget
  obtain ⟨q, hq, hlt, h0, hentry⟩ := h.registry.entry at' hlisted
  obtain rfl := Option.some.inj (hp.symm.trans hq)
  have hat : w.factory.getPair a b = at' := by
    rcases hfor with ⟨h₀, h₁⟩ | ⟨h₀, h₁⟩
    · rw [← h₀, ← h₁, hentry]
    · rw [← h₀, ← h₁, h.registry.symmetric, hentry]
  rw [← hat, hr.getPair] at hp
  rcases hfor with ⟨rfl, rfl⟩ | ⟨rfl, rfl⟩
  · rw [min_eq_left hlt.le, max_eq_right hlt.le]
    exact ⟨p, hp, rfl, rfl, hlt.ne, h0⟩
  · rw [min_eq_right hlt.le, max_eq_left hlt.le]
    exact ⟨p, hp, rfl, rfl, hlt.ne', h0⟩

theorem unsorted (f : Address → Nat) (a b : Address) :
    (if a = min a b then (f (min a b), f (max a b)) else (f (max a b), f (min a b))) = (f a, f b) := by
  rcases le_or_gt a b with hle | hlt
  · rw [min_eq_left hle, max_eq_right hle, if_pos rfl]
  · rw [min_eq_right hlt.le, max_eq_left hlt.le, if_neg hlt.ne']

section Burn

variable {self t₀ t₁ : Address} {token : Address}

theorem burn_redeems (hd : Deployed env self t₀ t₁) (h : Sound self t₀ t₁ w p)
    (hm : ArkSwapPair.burn env w self sender dst = .ok ((x, y), w')) :
    Redeems self dst w w' t₀ x ∧ Redeems self dst w w' t₁ y ∧ 0 < x ∧ 0 < y ∧
      (w'.token self).totalSupply = (feeLedger w self p).totalSupply - w.balanceOf self self ∧
      (feeLedger w self p).totalSupply ≠ 0 ∧
      ∃ q, w'.pair self = some q ∧ feeLedger w' self q = w'.token self := by
  obtain ⟨-, hne, hn₀, hn₁, hs₀, hs₁⟩ := h.deployed hd
  obtain ⟨-, hF, hx, hy, hx0, hy0, lp, q, hburn, -, -, hset, hpair, htok, hfac⟩ :=
    burn_ok hs₀ hs₁ h.pair h.kLast_lt hm
  obtain ⟨-, -, rfl⟩ := ArkSwapERC20.burn_eq_ok.mp hburn
  rw [← owed_eq h.pair] at hx hy
  obtain rfl := h.token0
  obtain rfl := h.token1
  have hself : w'.token self = { feeLedger w self p with
      balanceOf := Ledger.debit (feeLedger w self p).balanceOf self (w.balanceOf self self)
      totalSupply := (feeLedger w self p).totalSupply - w.balanceOf self self } := by
    rw [htok, paidOut, World.moved_token_of_ne _ _ _ hn₁.symm,
      World.moved_token_of_ne _ _ _ hn₀.symm, World.setToken_token]
  refine ⟨⟨hx, ?_⟩, ⟨hy, ?_⟩, hx0, hy0, by rw [hself], hF, q, ?_, ?_⟩
  · rw [htok, paidOut, World.moved_token_of_ne _ _ _ hne, World.moved_token,
      World.setToken_token_of_ne hn₀]
  · rw [htok, paidOut, World.moved_token, World.moved_token_of_ne _ _ _ hne.symm,
      World.setToken_token_of_ne hn₁]
  · rw [hpair, Function.update_self]
  · exact feeLedger_recorded (by rw [hset.kLast, hset.reserve0, hset.reserve1, hfac])

theorem own_lt_supply (hd : Deployed env self t₀ t₁) (h : Sound self t₀ t₁ w p)
    (hF : (feeLedger w self p).totalSupply ≠ 0) :
    w.balanceOf self self < (feeLedger w self p).totalSupply := by
  -- The locked shares at zero are never redeemed.
  have hlocked : MINIMUM_LIQUIDITY ≤ w.balanceOf self 0 := (h.seeded_of_fee hF).1
  have hheld := Ledger.add_le_sum (feeLedger w self p).balanceOf hd.pool_ne
  rw [h.fee_conserved.1] at hheld
  have hown := Sound.feeLedger_balance w self p self
  have hzero := Sound.feeLedger_balance w self p 0
  unfold MINIMUM_LIQUIDITY at hlocked
  omega

variable {amount : Nat}

theorem Redeems.lower (hr : Redeems self dst w w' token amount) (hp : w.pair self = some p)
    (hown : w.balanceOf self self ≤ (feeLedger w self p).totalSupply) :
    w'.balanceOf token self ≤ w.balanceOf token self := by
  have hle : amount ≤ (w.token token).balanceOf self := by
    rw [hr.share, owed_eq hp]
    exact Shares.redeem_le hown
  rw [World.balanceOf, hr.ledger]
  exact Ledger.move_src_le dst hle

theorem Redeems.paid (hr : Redeems self dst w w' token amount) (hdst : dst ≠ self) :
    w'.balanceOf token dst = w.balanceOf token dst + amount := by
  rw [World.balanceOf, hr.ledger]
  exact Ledger.move_dst _ hdst

/-- What is rounded down stays with the other shares. -/
theorem Redeems.rest {q : ArkSwapPair} (hr : Redeems self dst w w' token amount)
    (hp : w.pair self = some p) (hq : w'.pair self = some q)
    (hfee : feeLedger w' self q = w'.token self)
    (hown : w.balanceOf self self < (feeLedger w self p).totalSupply)
    (hsupply : (w'.token self).totalSupply =
      (feeLedger w self p).totalSupply - w.balanceOf self self) (shares : Nat) :
    owed w self shares token ≤ owed w' self shares token := by
  have hleft : w.balanceOf token self - amount ≤ w'.balanceOf token self := by
    rw [World.balanceOf, World.balanceOf, hr.ledger]
    exact Ledger.le_move_src _ _ _ _
  have hredeem := Shares.redeem (b := w.balanceOf token self) hown.le
  rw [← owed_eq hp, ← hr.share] at hredeem
  rw [owed_eq hp, owed_eq hq, hfee, hsupply]
  exact Shares.due_mono _ (by omega) (hredeem.trans (Nat.mul_le_mul_right _ hleft))

end Burn

section Send

variable {self token : Address} {lp : ArkSwapERC20}

theorem sendShares_ok (hc : (w.token self).Conserved)
    (h : (w.token self).transferFrom env.router sender self liquidity = .ok lp) :
    liquidity ≤ w.balanceOf self sender ∧ liquidity ≤ (w.token self).allowance sender env.router ∧
      lp.totalSupply = (w.token self).totalSupply ∧
      lp.balanceOf = Ledger.move (w.token self).balanceOf sender self liquidity ∧
      ∀ o, o ≠ sender → lp.allowance o = (w.token self).allowance o := by
  rw [ArkSwapERC20.transferFrom, bind_eq_ok] at h
  obtain ⟨t, hspend, hmove⟩ := h
  obtain ⟨hsupply, hb, -, hspent⟩ := ArkSwapERC20.spendAllowance_ok hspend
  obtain ⟨hle, -, rfl⟩ := ArkSwapERC20.transfer_eq_ok.mp hmove
  rw [hb] at hle
  have hword := hc.balance_lt sender
  refine ⟨hle, ?_, hsupply, by rw [hb], fun o ho => ?_⟩
  · -- An allowance without limit covers all that there is.
    rcases hspent with ⟨hmax, -⟩ | ⟨hallowed, -⟩ <;> omega
  · rcases hspent with ⟨-, rfl⟩ | ⟨-, rfl⟩
    · rfl
    · exact Function.update_of_ne ho _ _

theorem sendShares_defined (hc : (w.token self).Conserved)
    (hle : liquidity ≤ w.balanceOf self sender)
    (hallowed : liquidity ≤ (w.token self).allowance sender env.router) :
    ∃ lp, (w.token self).transferFrom env.router sender self liquidity = .ok lp := by
  have hmoves : ∀ t : ArkSwapERC20, t.balanceOf = (w.token self).balanceOf →
      ∃ lp, t.transfer sender self liquidity = .ok lp := fun t ht =>
    ⟨_, ArkSwapERC20.transfer_eq_ok.mpr ⟨ht ▸ hle, ht ▸ hc.debit_add_lt hle, rfl⟩⟩
  rw [ArkSwapERC20.transferFrom, ArkSwapERC20.spendAllowance]
  by_cases hmax : (w.token self).allowance sender env.router = Uint.size - 1
  · rw [if_neg (not_not.mpr hmax), pure_eq_ok, ok_bind]
    exact hmoves _ rfl
  · have hrest := SafeMath.sub_eq_ok.mpr ⟨hallowed, rfl⟩
    rw [if_pos hmax, hrest, ok_bind, pure_eq_ok, ok_bind]
    exact hmoves _ rfl

theorem owed_sent (hsupply : lp.totalSupply = (w.token self).totalSupply) (ht : token ≠ self)
    (shares : Nat) : owed (w.setToken self lp) self shares token = owed w self shares token := by
  unfold owed
  rw [World.setToken_pair]
  rcases w.pair self with _ | p
  · rfl
  · simp only [feeLedger, issued_totalSupply, World.setToken_token, World.setToken_factory,
      World.balanceOf_setToken_of_ne _ ht, hsupply]

end Send

/-- What a withdrawal of one account leaves to all others. -/
structure Leaves (env : Env) (a b sender : Address) (w w' : World) : Prop where
  ordered : Ordered env ∅ w'
  registered : Registered env w' a b
  shares : ∀ o, o ≠ sender → o ≠ pool env a b →
    w.balanceOf (pool env a b) o ≤ w'.balanceOf (pool env a b) o
  allowance : ∀ o, o ≠ sender →
    (w'.token (pool env a b)).allowance o = (w.token (pool env a b)).allowance o
  lower : ∀ t, t = a ∨ t = b → w'.balanceOf t (pool env a b) ≤ w.balanceOf t (pool env a b)
  rest : ∀ t, t = a ∨ t = b → ∀ shares,
    owed w (pool env a b) shares t ≤ owed w' (pool env a b) shares t

/-- What the pair of two tokens pays in one of them for shares sent to it now. -/
def due (env : Env) (w : World) (a b : Address) (liquidity : Nat) (token : Address) : Nat :=
  owed w (pool env a b) (w.balanceOf (pool env a b) (pool env a b) + liquidity) token

/-- What a withdrawal is granted on. -/
structure Granted (env : Env) (w : World) (a b sender : Address)
    (liquidity minA minB x y : Nat) : Prop where
  held : liquidity ≤ w.balanceOf (pool env a b) sender
  allowed : liquidity ≤ (w.token (pool env a b)).allowance sender env.router
  amountA : x = due env w a b liquidity a
  amountB : y = due env w a b liquidity b
  paysA : 0 < x
  paysB : 0 < y
  enoughA : minA ≤ x
  enoughB : minB ≤ y

section Withdrawal

variable (hs : Premises env fees absent) (h : Ordered env ∅ w) (hr : Registered env w a b)
  (hpool : ¬Pooled env sender) (hne : sender ≠ env.router)

/-- The pair as it stands when the shares have arrived. -/
structure Arrived (env : Env) (w : World) (a b : Address) (liquidity : Nat) (lp : ArkSwapERC20)
    (p : ArkSwapPair) : Prop where
  pair : w.pair (pool env a b) = some p
  deployed : Deployed env (pool env a b) (min a b) (max a b)
  sound : Sound (pool env a b) (min a b) (max a b) (w.setToken (pool env a b) lp) p
  own : (w.setToken (pool env a b) lp).balanceOf (pool env a b) (pool env a b) =
    w.balanceOf (pool env a b) (pool env a b) + liquidity
  supply : lp.totalSupply = (w.token (pool env a b)).totalSupply

include hs h hr hpool hne in
theorem shares_arrive {lp : ArkSwapERC20}
    (hlp : (w.token (pool env a b)).transferFrom env.router sender (pool env a b) liquidity =
      .ok lp) : ∃ p, Arrived env w a b liquidity lp p := by
  obtain ⟨p, hp, h₀, h₁, -⟩ := hr.pair h
  have hplaced := h.placed _ p hp
  have hdeployed := hplaced.deployed hs.toGrounds
  have hreach : Reach env fees absent w (w.setToken (pool env a b) lp) :=
    sharesToPair_reach hs hne hlp
  have hord := (keeps_of_reach hs.toGrounds hreach ∅ h).ordered
  have hsound := hord.sound _ p hp (Set.notMem_empty _)
  rw [h₀, h₁] at hdeployed hsound
  obtain ⟨-, -, hsupply, hmoved, -⟩ := sendShares_ok (h.conserved _) hlp
  have hsender : pool env a b ≠ sender := fun hp => hpool (hp ▸ hplaced.pooled)
  refine ⟨p, hp, hdeployed, hsound, ?_, hsupply⟩
  rw [World.balanceOf_setToken, hmoved]
  exact Ledger.move_dst _ hsender

variable {lp : ArkSwapERC20}

theorem Arrived.owes (hw : Arrived env w a b liquidity lp p) {t : Address}
    (ht : t ≠ pool env a b) :
    owed (w.setToken (pool env a b) lp) (pool env a b)
        ((w.setToken (pool env a b) lp).balanceOf (pool env a b) (pool env a b)) t =
      due env w a b liquidity t := by
  rw [owed_sent hw.supply ht, hw.own, due]

/-- The pair redeems the shares in both tokens of the call. -/
theorem Arrived.redeems (hw : Arrived env w a b liquidity lp p)
    (hburn : ArkSwapPair.burn env (w.setToken (pool env a b) lp) (pool env a b) sender dst =
      .ok ((x, y), w')) :
    (if a = min a b then (x, y) else (y, x)) = (due env w a b liquidity a, due env w a b liquidity b) ∧
      ∀ t, t = a ∨ t = b → 0 < due env w a b liquidity t ∧ t ≠ pool env a b ∧
        Redeems (pool env a b) dst (w.setToken (pool env a b) lp) w' t (due env w a b liquidity t) := by
  obtain ⟨hx, hy, hx0, hy0, -⟩ := burn_redeems hw.deployed hw.sound hburn
  have ht₀ : min a b ≠ pool env a b := hw.deployed.token0_ne
  have ht₁ : max a b ≠ pool env a b := hw.deployed.token1_ne
  obtain rfl : x = due env w a b liquidity (min a b) := hx.share.trans (hw.owes ht₀)
  obtain rfl : y = due env w a b liquidity (max a b) := hy.share.trans (hw.owes ht₁)
  obtain ⟨ha, hb⟩ := of_sorted (P := fun t => 0 < due env w a b liquidity t ∧ t ≠ pool env a b ∧
    Redeems (pool env a b) dst (w.setToken (pool env a b) lp) w' t (due env w a b liquidity t))
    ⟨hx0, ht₀, hx⟩ ⟨hy0, ht₁, hy⟩
  refine ⟨unsorted (due env w a b liquidity) a b, ?_⟩
  rintro t (rfl | rfl)
  · exact ha
  · exact hb

include hs h hr hpool hne in
theorem removeLiquidity_granted
    (hm : removeLiquidity env w sender a b liquidity minA minB dst deadline = .ok ((x, y), w')) :
    w.timestamp ≤ deadline ∧ Granted env w a b sender liquidity minA minB x y ∧
      Leaves env a b sender w w' ∧ (dst ≠ pool env a b →
        w'.balanceOf a dst = w.balanceOf a dst + x ∧ w'.balanceOf b dst = w.balanceOf b dst + y) := by
  have hreach : Reach env fees absent w w' := removeLiquidity_reach hs hne hm
  simp only [removeLiquidity, ensure, bind_eq_ok, sortTokens_eq_ok, pairFor_eq_ok,
    World.storage_eq_ok, require_eq_ok, pure_eq_ok, Except.ok.injEq, Prod.mk.injEq] at hm
  obtain ⟨-, htime, _, ⟨hab, -, rfl⟩, _, -, lp, hlp, ⟨⟨a₀, a₁⟩, w₁⟩, hburn, _, ⟨-, -, rfl⟩, -, hminA,
    -, hminB, ⟨hx, hy⟩, rfl⟩ := hm
  obtain ⟨p, hw⟩ := shares_arrive hs h hr hpool hne hlp
  obtain ⟨hheld, hallowed, hsupply, hmoved, hothers⟩ := sendShares_ok (h.conserved _) hlp
  obtain ⟨hpays, hredeems⟩ := hw.redeems hburn
  obtain ⟨-, -, -, -, hleft, hF, q, hq, hfee⟩ := burn_redeems hw.deployed hw.sound hburn
  have hinside := burn_inside hw.deployed hw.sound hburn
  have hown := own_lt_supply hw.deployed hw.sound hF
  have hbalance : ∀ t, t ≠ pool env a b → ∀ o,
      (w.setToken (pool env a b) lp).balanceOf t o = w.balanceOf t o :=
    fun t ht o => World.balanceOf_setToken_of_ne o ht
  simp only [hpays] at hx hy hminA hminB
  subst hx
  subst hy
  obtain ⟨ha0, hat, hra⟩ := hredeems a (.inl rfl)
  obtain ⟨hb0, hbt, hrb⟩ := hredeems b (.inr rfl)
  refine ⟨htime, ⟨hheld, hallowed, rfl, rfl, ha0, hb0, hminA, hminB⟩, ?_, fun hdst => ?_⟩
  · refine ⟨(keeps_of_reach hs.toGrounds hreach ∅ h).ordered, ⟨?_, hr.nonzero⟩, ?_, ?_, ?_, ?_⟩
    · rw [hinside.factory, World.setToken_factory, hr.getPair]
    · intro o ho hop
      refine le_trans ?_ (hinside.held (pool env a b) o hop)
      rw [World.balanceOf_setToken, hmoved]
      exact Ledger.le_move ho
    · intro o ho
      rw [hinside.allowance, World.setToken_token, hothers o ho]
    · intro t ht
      obtain ⟨-, htp, hrt⟩ := hredeems t ht
      exact (hrt.lower hw.sound.pair hown.le).trans_eq (hbalance t htp _)
    · intro t ht shares
      obtain ⟨-, htp, hrt⟩ := hredeems t ht
      rw [← owed_sent hw.supply htp]
      exact hrt.rest hw.sound.pair hq hfee hown hleft shares
  · rw [hra.paid hdst, hrb.paid hdst, hbalance a hat, hbalance b hbt]
    exact ⟨rfl, rfl⟩

include hs h hr hpool hne in
/-- The arithmetic stops no withdrawal from a pool whose balances fit its reserves. -/
theorem removeLiquidity_defined (dst : Address)
    (hfit : ∀ t, t = a ∨ t = b → w.balanceOf t (pool env a b) ≤ Uint.max112)
    (htime : w.timestamp ≤ deadline) (hg : Granted env w a b sender liquidity minA minB x y) :
    ∃ w', removeLiquidity env w sender a b liquidity minA minB dst deadline = .ok ((x, y), w') := by
  obtain ⟨hheld, hallowed, rfl, rfl, hx0, hy0, hminA, hminB⟩ := hg
  obtain ⟨lp, hlp⟩ := sendShares_defined (h.conserved _) hheld hallowed
  obtain ⟨p, hw⟩ := shares_arrive hs h hr hpool hne hlp
  obtain ⟨_, -, -, -, hab, h0⟩ := hr.pair h
  have ht₀ : min a b ≠ pool env a b := hw.deployed.token0_ne
  have ht₁ : max a b ≠ pool env a b := hw.deployed.token1_ne
  rcases hburn : ArkSwapPair.burn env (w.setToken (pool env a b) lp) (pool env a b) env.router dst with
    e | ⟨⟨a₀, a₁⟩, w'⟩
  · exfalso
    have hfits : ∀ t, t ≠ pool env a b → t = a ∨ t = b →
        (w.setToken (pool env a b) lp).balanceOf t (pool env a b) ≤ Uint.max112 := fun t ht hab' =>
      (World.balanceOf_setToken_of_ne _ ht).trans_le (hfit t hab')
    have hpays : ∀ t, t ≠ pool env a b →
        Sound.payout (w.setToken (pool env a b) lp) (pool env a b) p t = due env w a b liquidity t :=
      fun t ht => (owed_eq hw.sound.pair _ t).symm.trans (hw.owes ht)
    obtain ⟨hnothing, -⟩ := hw.sound.burn_error hw.deployed (hfits _ ht₀ (min_choice a b))
      (hfits _ ht₁ (max_choice a b)) hburn
    rw [hpays _ ht₀, hpays _ ht₁] at hnothing
    obtain ⟨hmin, hmax⟩ := sorted_pair (P := fun s t => due env w a b liquidity s ≠ 0 ∧
      due env w a b liquidity t ≠ 0) ⟨hx0.ne', hy0.ne'⟩ ⟨hy0.ne', hx0.ne'⟩
    exact hnothing.elim hmin hmax
  · obtain ⟨hpays, -⟩ := hw.redeems hburn
    refine ⟨w', ?_⟩
    simp only [removeLiquidity, ensure, bind_eq_ok, sortTokens_eq_ok, pairFor_eq_ok,
      World.storage_eq_ok, require_eq_ok, pure_eq_ok, Except.ok.injEq, Prod.mk.injEq]
    refine ⟨(), htime, _, ⟨hab, h0, rfl⟩, p, hw.pair, lp, hlp, ⟨⟨a₀, a₁⟩, w'⟩, hburn, _,
      ⟨hab, h0, rfl⟩, ?_⟩
    rw [hpays]
    exact ⟨(), hminA, (), hminB, ⟨rfl, rfl⟩, rfl⟩

end Withdrawal

section Leavers

/-- A withdrawal that an account asks of the router. -/
structure Withdrawal (env : Env) (absent : Set Address) where
  sender : RouterCall.Trader env absent
  liquidity : Nat
  minA : Nat
  minB : Nat
  dst : Address
  deadline : Nat

/-- One after the other, accounts withdraw from the pool of two tokens. -/
def leaveAll (env : Env) (a b : Address) : World → List (Nat × Withdrawal env absent) → Except String World
  | w, [] => .ok w
  | w, (timestamp, c) :: rest => do
      let (_, w) ← removeLiquidity env { w with timestamp := timestamp } c.sender.val a b c.liquidity
        c.minA c.minB c.dst c.deadline
      leaveAll env a b w rest

/-- The shares are the caller's, the router may spend them, and now they are worth something
and no less than is asked for. -/
@[mk_iff]
structure Entitled (w : World) (a b : Address) (c : Withdrawal env absent) : Prop where
  held : c.liquidity ≤ w.balanceOf (pool env a b) c.sender.val
  allowed : c.liquidity ≤ (w.token (pool env a b)).allowance c.sender.val env.router
  worthA : 0 < owed w (pool env a b) c.liquidity a
  worthB : 0 < owed w (pool env a b) c.liquidity b
  enoughA : c.minA ≤ owed w (pool env a b) c.liquidity a
  enoughB : c.minB ≤ owed w (pool env a b) c.liquidity b

instance (w : World) (a b : Address) (c : Withdrawal env absent) : Decidable (Entitled w a b c) :=
  decidable_of_iff _ (entitled_iff w a b c).symm

variable {c : Withdrawal env absent} {leavers : List (Nat × Withdrawal env absent)}

theorem owed_le_due (env : Env) (w : World) (a b t : Address) (shares : Nat) :
    owed w (pool env a b) shares t ≤ due env w a b shares t := by
  unfold due owed
  split
  · exact Nat.div_le_div_right (Nat.mul_le_mul_right _ (Nat.le_add_left _ _))
  · exact le_refl _

theorem Entitled.granted (hc : Entitled w a b c) :
    Granted env w a b c.sender.val c.liquidity c.minA c.minB (due env w a b c.liquidity a)
      (due env w a b c.liquidity b) where
  held := hc.held
  allowed := hc.allowed
  amountA := rfl
  amountB := rfl
  paysA := hc.worthA.trans_le (owed_le_due env w a b a c.liquidity)
  paysB := hc.worthB.trans_le (owed_le_due env w a b b c.liquidity)
  enoughA := hc.enoughA.trans (owed_le_due env w a b a c.liquidity)
  enoughB := hc.enoughB.trans (owed_le_due env w a b b c.liquidity)

/-- Whoever leaves takes nothing from those who stay. -/
theorem Entitled.left (hc : Entitled w a b c) (hl : Leaves env a b sender w w')
    (hsender : c.sender.val.val ≠ sender) (hself : c.sender.val.val ≠ pool env a b) :
    Entitled w' a b c where
  held := hc.held.trans (hl.shares _ hsender hself)
  allowed := by
    rw [hl.allowance _ hsender]
    exact hc.allowed
  worthA := hc.worthA.trans_le (hl.rest a (.inl rfl) c.liquidity)
  worthB := hc.worthB.trans_le (hl.rest b (.inr rfl) c.liquidity)
  enoughA := hc.enoughA.trans (hl.rest a (.inl rfl) c.liquidity)
  enoughB := hc.enoughB.trans (hl.rest b (.inr rfl) c.liquidity)

theorem Granted.at_time (hg : Granted env w a b sender liquidity minA minB x y) (timestamp : Nat) :
    Granted env { w with timestamp := timestamp } a b sender liquidity minA minB x y where
  held := hg.held
  allowed := hg.allowed
  amountA := hg.amountA
  amountB := hg.amountB
  paysA := hg.paysA
  paysB := hg.paysB
  enoughA := hg.enoughA
  enoughB := hg.enoughB

theorem Entitled.at_time (hc : Entitled w a b c) (timestamp : Nat) :
    Entitled { w with timestamp := timestamp } a b c where
  held := hc.held
  allowed := hc.allowed
  worthA := hc.worthA
  worthB := hc.worthB
  enoughA := hc.enoughA
  enoughB := hc.enoughB

theorem leaveAll_ok (hs : Premises env fees absent) (h : Ordered env ∅ w) (hr : Registered env w a b)
    (hfit : ∀ t, t = a ∨ t = b → w.balanceOf t (pool env a b) ≤ Uint.max112)
    (hnodup : (leavers.map fun c => c.2.sender.val.val).Nodup)
    (htime : ∀ c ∈ leavers, c.1 ≤ c.2.deadline) (hentitled : ∀ c ∈ leavers, Entitled w a b c.2) :
    ∃ w', leaveAll env a b w leavers = .ok w' := by
  induction leavers generalizing w with
  | nil => exact ⟨w, rfl⟩
  | cons first rest ih =>
    obtain ⟨timestamp, c⟩ := first
    obtain ⟨hfresh, hnodup⟩ := List.nodup_cons.mp hnodup
    obtain ⟨hnow, htime⟩ := List.forall_mem_cons.mp htime
    obtain ⟨hc, hentitled⟩ := List.forall_mem_cons.mp hentitled
    have hpool : ¬Pooled env c.sender.val := c.sender.val.2.2.2.1
    have hreg : Registered env { w with timestamp := timestamp } a b := ⟨hr.getPair, hr.nonzero⟩
    obtain ⟨w₁, hw₁⟩ := removeLiquidity_defined hs (h.at_time timestamp) hreg hpool
      c.sender.2 c.dst hfit hnow (hc.at_time timestamp).granted
    obtain ⟨-, -, hleaves, -⟩ :=
      removeLiquidity_granted hs (h.at_time timestamp) hreg hpool c.sender.2 hw₁
    obtain ⟨p, hp, -⟩ := hr.pair h
    have hstays : ∀ d ∈ rest, Entitled w₁ a b d.2 := by
      intro d hd
      have hother : d.2.sender.val.val ≠ c.sender.val.val := fun he =>
        hfresh (List.mem_map.mpr ⟨d, hd, he⟩)
      have hself : d.2.sender.val.val ≠ pool env a b := fun he =>
        d.2.sender.val.2.2.2.1 (he ▸ (h.placed _ p hp).pooled)
      exact ((hentitled d hd).at_time timestamp).left hleaves hother hself
    obtain ⟨w', hw'⟩ := ih hleaves.ordered hleaves.registered
      (fun t ht => (hleaves.lower t ht).trans (hfit t ht)) hnodup htime hstays
    refine ⟨w', ?_⟩
    rw [leaveAll, hw₁, ok_bind]
    exact hw'

end Leavers

section Site

def siteLeaver : RouterCall.Trader siteEnv ∅ :=
  ⟨⟨9, by decide, by decide, siteEnv_free (by decide), Set.notMem_empty 9⟩,
    (by decide : (9 : Address) ≠ siteEnv.router)⟩

def approving (owner : Account siteEnv ∅) : Transaction siteEnv True ∅ :=
  ⟨fun w => .ok (w.setToken 10 ((w.token 10).approve owner 2 3000)), fun w _ h =>
    Except.ok.inj h ▸ .approve w 10 owner 2 3000⟩

/-- Accounts 7 and 9 get shares of the pair of tokens 4 and 5, which the router may spend. -/
def sharing : List (Nat × Transaction siteEnv True ∅) :=
  [(2, RouterCall.transaction siteEnv_open siteTrader firstCall.2.2),
    (3, RouterCall.transaction siteEnv_open siteTrader (.addLiquidity 4 5 1000 1000 0 0 9 9)),
    (3, approving siteHolder), (3, approving siteLeaver.val)]

/-- Account 7 takes three fifths out, and account 9 asks for no less than before. -/
def departing : List (Nat × Withdrawal siteEnv ∅) :=
  [(4, ⟨siteTrader, 3000, 3000, 3000, 7, 9⟩), (5, ⟨siteLeaver, 1000, 1000, 1000, 9, 9⟩)]

theorem sharing_result :
    (run siteWorld sharing).factory.getPair 4 5 = pool siteEnv 4 5 ∧ pool siteEnv 4 5 ≠ 0 ∧
      (run siteWorld sharing).balanceOf 4 (pool siteEnv 4 5) = 5000 ∧
      (run siteWorld sharing).balanceOf 5 (pool siteEnv 4 5) = 5000 ∧
      due siteEnv (run siteWorld sharing) 4 5 3000 4 = 3000 ∧
      due siteEnv (run siteWorld sharing) 4 5 3000 5 = 3000 := by
  decide +kernel

theorem departing_entitled : ∀ c ∈ departing, Entitled (run siteWorld sharing) 4 5 c.2 := by
  decide +kernel

theorem sharing_registered : Registered siteEnv (run siteWorld sharing) 4 5 :=
  ⟨sharing_result.1, sharing_result.2.1⟩

theorem sharing_fits (t : Address) (ht : t = 4 ∨ t = 5) :
    (run siteWorld sharing).balanceOf t (pool siteEnv 4 5) ≤ Uint.max112 := by
  obtain ⟨-, -, h₄, h₅, -⟩ := sharing_result
  rcases ht with rfl | rfl
  · rw [h₄]
    norm_num [Uint.max112]
  · rw [h₅]
    norm_num [Uint.max112]

end Site

/-- After any transactions, a withdrawal through the router pays exactly what the shares are due,
in time and wherever that is positive and no less than is asked for. -/
theorem run_withdrawable (hs : Premises env fees absent) (hg : Genesis env w)
    (txs : List (Nat × Transaction env fees absent)) (hr : Registered env (run w txs) a b)
    (hfit : ∀ t, t = a ∨ t = b → (run w txs).balanceOf t (pool env a b) ≤ Uint.max112)
    (sender : RouterCall.Trader env absent) (timestamp : Nat) :
    (∃ w', removeLiquidity env { run w txs with timestamp := timestamp } sender.val a b liquidity
        minA minB dst deadline = .ok ((x, y), w') ∧ (dst ≠ pool env a b →
          w'.balanceOf a dst = (run w txs).balanceOf a dst + x ∧
          w'.balanceOf b dst = (run w txs).balanceOf b dst + y)) ↔
      timestamp ≤ deadline ∧
        Granted env (run w txs) a b sender.val liquidity minA minB x y := by
  have h := (run_ordered hs.toGrounds hg txs).at_time timestamp
  have hreg : Registered env { run w txs with timestamp := timestamp } a b :=
    ⟨hr.getPair, hr.nonzero⟩
  have hpool : ¬Pooled env sender.val := sender.val.2.2.2.1
  constructor
  · rintro ⟨w', hm, -⟩
    obtain ⟨htime, hgranted, -⟩ := removeLiquidity_granted hs h hreg hpool sender.2 hm
    exact ⟨htime, hgranted.at_time (run w txs).timestamp⟩
  · rintro ⟨htime, hgranted⟩
    obtain ⟨w', hm⟩ := removeLiquidity_defined hs h hreg hpool sender.2 dst hfit htime
      (hgranted.at_time timestamp)
    obtain ⟨-, -, -, hpaid⟩ := removeLiquidity_granted hs h hreg hpool sender.2 hm
    exact ⟨w', hm, hpaid⟩

theorem sharing_withdrawable :
    ∃ w', removeLiquidity siteEnv { run siteWorld sharing with timestamp := 4 } siteTrader.val 4 5 3000
        3000 3000 8 9 = .ok ((3000, 3000), w') ∧ (8 ≠ pool siteEnv 4 5 →
          w'.balanceOf 4 8 = (run siteWorld sharing).balanceOf 4 8 + 3000 ∧
          w'.balanceOf 5 8 = (run siteWorld sharing).balanceOf 5 8 + 3000) := by
  obtain ⟨-, -, -, -, hA, hB⟩ := sharing_result
  obtain ⟨hheld, hallowed, -⟩ := departing_entitled _ List.mem_cons_self
  exact (run_withdrawable siteEnv_open siteWorld_genesis sharing sharing_registered sharing_fits
    siteTrader 4).mpr ⟨by decide, hheld, hallowed, hA.symm, hB.symm, by decide, by decide, le_refl _,
      le_refl _⟩

/-- After any transactions, those who leave a pool take nothing from those who stay: accounts
can withdraw one after the other, and each of them may ask for what its shares were worth
before the first one left. -/
theorem run_all_leave (hs : Premises env fees absent) (hg : Genesis env w)
    (txs : List (Nat × Transaction env fees absent)) (hr : Registered env (run w txs) a b)
    (hfit : ∀ t, t = a ∨ t = b → (run w txs).balanceOf t (pool env a b) ≤ Uint.max112)
    (leavers : List (Nat × Withdrawal env absent))
    (hnodup : (leavers.map fun c => c.2.sender.val.val).Nodup)
    (htime : ∀ c ∈ leavers, c.1 ≤ c.2.deadline)
    (hentitled : ∀ c ∈ leavers, Entitled (run w txs) a b c.2) :
    ∃ w', leaveAll env a b (run w txs) leavers = .ok w' :=
  leaveAll_ok hs (run_ordered hs.toGrounds hg txs) hr hfit hnodup htime hentitled

theorem sharing_all_leave : ∃ w', leaveAll siteEnv 4 5 (run siteWorld sharing) departing = .ok w' :=
  run_all_leave siteEnv_open siteWorld_genesis sharing sharing_registered sharing_fits departing
    (by decide) (by decide) departing_entitled

end Exchange

end ArkSwap
