import ArkSwap.Exchange
import ArkSwap.PairAuthority
import ArkSwap.PairReports

/-! The order the exchange keeps, and what the calls of accounts and the calls of one pair
do to all other pairs. -/

namespace ArkSwap

open Checked ArkSwapPair

namespace Exchange

/-- Nobody may spend what a pair or the zero address holds. -/
def Unapproved (env : Env) (w : World) : Prop :=
  ∀ t o s, o = 0 ∨ Pooled env o → (w.token t).allowance o s = 0

/-- A pair stands where the factory and the router look for the pair of its tokens. -/
structure Placed (env : Env) (w : World) (a : Address) (p : ArkSwapPair) : Prop where
  nonzero : a ≠ 0
  address : a = create2 env (pairSalt env p.token0 p.token1) env.pairCodeHash
  sorted : p.token0 < p.token1
  listed : a ∈ w.factory.allPairs

/-- The exchange while the pairs at the `busy` addresses are inside of swaps. -/
structure Ordered (env : Env) (busy : Set Address) (w : World) : Prop where
  conserved : ∀ t, (w.token t).Conserved
  unapproved : Unapproved env w
  vacant : ∀ a, Pooled env a → w.pair a = none → (w.token a).totalSupply = 0
  registry : FactoryCall.Registry w
  placed : ∀ a p, w.pair a = some p → Placed env w a p
  sound : ∀ a p, w.pair a = some p → a ∉ busy → Sound a p.token0 p.token1 w p
  locked : ∀ a ∈ busy, ∃ p, w.pair a = some p ∧ p.unlocked = 0
  backed : (w.token env.WETH).totalSupply ≤ w.native env.WETH

variable {env : Env} {fees : Prop} {absent busy : Set Address} {w w' w'' : World}

theorem Placed.pooled {a : Address} {p : ArkSwapPair} (h : Placed env w a p) : Pooled env a :=
  ⟨_, _, h.address⟩

theorem Genesis.ordered (h : Genesis env w) : Ordered env ∅ w where
  conserved := h.conserved
  unapproved := h.unapproved
  vacant a ha _ := h.vacant a ha
  registry := h.factory.registry
  placed a p hp := by cases (h.unpaired a).symm.trans hp
  sound a p hp := by cases (h.unpaired a).symm.trans hp
  locked a ha := ha.elim
  backed := h.backed

theorem Ordered.at_time (h : Ordered env busy w) (ts : Nat) :
    Ordered env busy { w with timestamp := ts } where
  conserved := h.conserved
  unapproved := h.unapproved
  vacant := h.vacant
  registry := ⟨h.registry.symmetric, h.registry.listed, h.registry.nodup, h.registry.entry⟩
  placed a p hp :=
    ⟨(h.placed a p hp).nonzero, (h.placed a p hp).address, (h.placed a p hp).sorted,
      (h.placed a p hp).listed⟩
  sound a p hp hb := (h.sound a p hp hb).at_time ts
  locked := h.locked
  backed := h.backed

section Accounts

/-- What a call of an account does. -/
structure Outside (env : Env) (fees : Prop) (w w' : World) : Prop where
  pair : w'.pair = w.pair
  logs : w'.logs = w.logs
  getPair : w'.factory.getPair = w.factory.getPair
  allPairs : w'.factory.allPairs = w.factory.allPairs
  feeTo : ¬fees → w'.factory.feeTo = w.factory.feeTo
  conserved : ∀ t, (w.token t).Conserved → (w'.token t).Conserved
  unapproved : Unapproved env w'
  beside : ∀ a, Pooled env a → Beside a w w'
  backed : (w.token env.WETH).totalSupply ≤ w.native env.WETH →
    (w'.token env.WETH).totalSupply ≤ w'.native env.WETH

theorem Outside.trans (h : Outside env fees w w') (h' : Outside env fees w' w'') : Outside env fees w w'' where
  pair := h'.pair.trans h.pair
  logs := h'.logs.trans h.logs
  getPair := h'.getPair.trans h.getPair
  allPairs := h'.allPairs.trans h.allPairs
  feeTo hf := (h'.feeTo hf).trans (h.feeTo hf)
  conserved t hc := h'.conserved t (h.conserved t hc)
  unapproved := h'.unapproved
  beside a ha := (h.beside a ha).trans (h'.beside a ha)
  backed hb := h'.backed (h.backed hb)

variable {token src dst : Address} {value : Nat} {t : ArkSwapERC20}

/-- An owner who may give something away. -/
def Giving (env : Env) (src : Address) (value : Nat) : Prop :=
  value = 0 ∨ src ≠ 0 ∧ ¬Pooled env src

theorem Account.giving (src : Account env absent) (value : Nat) : Giving env src value :=
  .inr ⟨src.2.1, src.2.2.2.1⟩

theorem beside_moved {a : Address} (h0 : src ≠ 0) (ha : a ≠ src)
    (hle : value ≤ w.balanceOf token src) : Beside a w (w.moved token src dst value) := by
  by_cases ht : token = a
  · subst ht
    exact Beside.setShares rfl (fun hz => ⟨hz, Ledger.le_move h0.symm⟩) fun hc => hc.move hle
  · exact Beside.setAsset ht (Ledger.le_move ha) fun hc => hc.move hle

theorem unapproved_setToken (hu : Unapproved env w)
    (ha : ∀ o s, o = 0 ∨ Pooled env o → t.allowance o s = 0) :
    Unapproved env (w.setToken token t) := by
  intro c o s ho
  by_cases hc : c = token
  · subst hc
    rw [World.setToken_token]
    exact ha o s ho
  · rw [World.setToken_token_of_ne hc]
    exact hu c o s ho

theorem outside_moved (hu : Unapproved env w) (hg : Giving env src value)
    (hle : value ≤ w.balanceOf token src) : Outside env fees w (w.moved token src dst value) where
  pair := rfl
  logs := rfl
  getPair := rfl
  allPairs := rfl
  feeTo _ := rfl
  conserved _ hc := conserved_moved hle rfl hc
  unapproved := unapproved_setToken hu (hu token)
  beside a ha := by
    rcases hg with rfl | ⟨h0, hp⟩
    · rw [World.moved_zero]
      exact Beside.refl a w
    · exact beside_moved h0 (fun h => hp (h ▸ ha)) hle
  backed hb := by
    by_cases hc : env.WETH = token
    · subst hc
      rwa [World.moved_token]
    · rwa [World.moved_token_of_ne _ _ _ hc]

theorem transfer_outside (hs : ∀ t, Standard env t) (hu : Unapproved env w)
    (hg : Giving env src value) (h : w.transfer env token src dst value = .ok w') :
    Outside env fees w w' := by
  obtain ⟨hle, -, rfl⟩ := (World.transfer_eq_ok (hs token)).mp h
  exact outside_moved hu hg hle

/-- Only allowances, and nonces, of one token change. -/
theorem outside_allowances (hu : Unapproved env w) (hb : t.balanceOf = (w.token token).balanceOf)
    (hs : t.totalSupply = (w.token token).totalSupply)
    (ha : ∀ o s, o = 0 ∨ Pooled env o → t.allowance o s = 0) :
    Outside env fees w (w.setToken token t) where
  pair := rfl
  logs := rfl
  getPair := rfl
  allPairs := rfl
  feeTo _ := rfl
  conserved c hc := by
    by_cases hct : c = token
    · subst hct
      rwa [World.setToken_token, ArkSwapERC20.Conserved, hb, hs]
    · rwa [World.setToken_token_of_ne hct]
  unapproved := unapproved_setToken hu ha
  beside a _ := by
    by_cases hta : token = a
    · subst hta
      refine Beside.setShares hs (fun _ => ⟨fun s => ha 0 s (.inl rfl), hb ▸ le_refl _⟩) fun hc => ?_
      rwa [ArkSwapERC20.Conserved, hb, hs]
    · refine Beside.setAsset hta (hb ▸ le_refl _) fun hc => ?_
      rwa [ArkSwapERC20.Conserved, hb, hs]
  backed hbacked := by
    by_cases hct : env.WETH = token
    · subst hct
      rwa [World.setToken_token, hs]
    · rwa [World.setToken_token_of_ne hct]

theorem approve_allowance {owner spender : Address} (hu : Unapproved env w)
    (hg : Giving env owner value) (o s : Address) (ho : o = 0 ∨ Pooled env o) :
    ((w.token token).approve owner spender value).allowance o s = 0 := by
  by_contra hne
  have hraised : (w.token token).allowance o s <
      ((w.token token).approve owner spender value).allowance o s := by
    rw [hu token o s ho]
    exact Nat.pos_of_ne_zero hne
  obtain ⟨rfl, -, hlt⟩ := ArkSwapERC20.approve_raised hraised
  rcases hg with rfl | ⟨h0, hp⟩
  · exact absurd hlt (Nat.not_lt_zero _)
  · exact ho.elim h0 hp

theorem approve_outside {owner : Account env absent} {spender : Address} (hu : Unapproved env w) :
    Outside env fees w (w.setToken token ((w.token token).approve owner spender value)) :=
  outside_allowances hu rfl rfl (approve_allowance hu (Account.giving owner value))

/-- Of a pair's tokens nothing can be spent, and wrapped KASH asks no allowance only of
accounts. -/
theorem spendAllowance_outside {spender : Account env absent} (hu : Unapproved env w)
    (h : w.spendAllowance env token spender src value = .ok t) :
    Giving env src value ∧ t.balanceOf = (w.token token).balanceOf ∧
      t.totalSupply = (w.token token).totalSupply ∧
      ∀ o s, o = 0 ∨ Pooled env o → t.allowance o s = 0 := by
  rw [World.spendAllowance, ite_eq_ok, Except.ok.injEq] at h
  rcases h with ⟨⟨-, rfl⟩, rfl⟩ | ⟨-, h⟩
  · exact ⟨Account.giving spender value, rfl, rfl, hu token⟩
  · obtain ⟨hs, hb, -, hspent⟩ := ArkSwapERC20.spendAllowance_ok h
    by_cases hsrc : src = 0 ∨ Pooled env src
    · have hzero := hu token src spender hsrc
      rcases hspent with ⟨hmax, rfl⟩ | ⟨hle, rfl⟩
      · rw [hzero] at hmax
        exact absurd hmax (by norm_num [Uint.size])
      · rw [hzero] at hle ⊢
        exact ⟨.inl (Nat.le_zero.mp hle), hb, hs, approve_allowance hu (.inl (Nat.zero_sub _))⟩
    · have hgiving : ∀ v, Giving env src v := fun _ => .inr (not_or.mp hsrc)
      refine ⟨hgiving value, hb, hs, ?_⟩
      rcases hspent with ⟨-, rfl⟩ | ⟨-, rfl⟩
      · exact hu token
      · exact approve_allowance hu (hgiving _)

theorem transferFrom_outside (hstd : ∀ t, Standard env t) {spender : Account env absent}
    (hu : Unapproved env w) (h : w.transferFrom env token spender src dst value = .ok w') :
    Outside env fees w w' := by
  rw [World.transferFrom, bind_eq_ok] at h
  obtain ⟨t, hspend, h⟩ := h
  obtain ⟨hg, hb, hs, ha⟩ := spendAllowance_outside hu hspend
  have hfirst : Outside env fees w (w.setToken token t) := outside_allowances hu hb hs ha
  exact hfirst.trans (transfer_outside hstd hfirst.unapproved hg h)

theorem permit_outside {owner spender : Address} {deadline v r s : Nat}
    (hsite : ∀ digest v r s, ¬Pooled env (env.ecrecover digest v r s)) (hu : Unapproved env w)
    (h : (w.token token).permit env token w.timestamp owner spender value deadline v r s = .ok t) :
    Outside env fees w (w.setToken token t) := by
  obtain ⟨-, h0, hrecovered, rfl⟩ := ArkSwapERC20.permit_ok h
  have hgiving : Giving env owner value := .inr ⟨h0, hrecovered ▸ hsite _ v r s⟩
  have hunapproved : ∀ o c, o = 0 ∨ Pooled env o →
      ((w.token token).approve owner spender value).allowance o c = 0 := approve_allowance hu hgiving
  exact outside_allowances hu rfl rfl hunapproved

/-- A ledger that is no pair's takes nothing from the pairs, and native KASH moves. -/
theorem outside_setToken {n : Address → Nat} (hu : Unapproved env w) (htoken : ¬Pooled env token)
    (hc : (w.token token).Conserved → t.Conserved) (ha : t.allowance = (w.token token).allowance)
    (hb : ∀ a, Pooled env a → (w.token token).balanceOf a ≤ t.balanceOf a)
    (hbacked : (w.token env.WETH).totalSupply ≤ w.native env.WETH →
      ((w.setToken token t).token env.WETH).totalSupply ≤ n env.WETH) :
    Outside env fees w { w.setToken token t with native := n } where
  pair := rfl
  logs := rfl
  getPair := rfl
  allPairs := rfl
  feeTo _ := rfl
  conserved c hcons := by
    by_cases hct : c = token
    · subst hct
      simpa using hc hcons
    · rwa [World.setToken_token_of_ne hct]
  unapproved := unapproved_setToken hu (ha ▸ hu token)
  beside a hp := by
    have hne : token ≠ a := fun h => htoken (h ▸ hp)
    exact (Beside.setAsset hne (hb a hp) hc).trans (Beside.of_eq rfl rfl)
  backed := hbacked

theorem issue_outside {token : Coin env} (hu : Unapproved env w)
    (h : (w.token token).mint dst value = .ok t) : Outside env fees w (w.setToken token t) := by
  have hc : (w.token token).Conserved → t.Conserved := fun hc => hc.mint h
  obtain ⟨-, -, rfl⟩ := ArkSwapERC20.mint_eq_ok.mp h
  refine outside_setToken hu token.2.2 hc rfl (fun a _ => Ledger.le_credit _ _ _ _) fun hb => ?_
  rwa [World.setToken_token_of_ne token.2.1.symm]

/-- What is wrapped arrives as native KASH. -/
theorem deposit_outside {src : Account env absent} (hweth : ¬Pooled env env.WETH)
    (hu : Unapproved env w) (h : WKASH.deposit env w src value = .ok w') : Outside env fees w w' := by
  simp only [WKASH.deposit, bind_eq_ok, require_eq_ok, pure_eq_ok, Except.ok.injEq] at h
  obtain ⟨-, hv, t, hmint, rfl⟩ := h
  have hc : (w.token env.WETH).Conserved → t.Conserved := fun hc => hc.mint hmint
  obtain ⟨-, -, rfl⟩ := ArkSwapERC20.mint_eq_ok.mp hmint
  refine outside_setToken hu hweth hc rfl (fun a _ => Ledger.le_credit _ _ _ _) fun hb => ?_
  rw [World.setToken_token]
  exact (Nat.add_le_add_right hb value).trans_eq (Ledger.move_dst value src.2.2.1.symm).symm

theorem unwrap_outside {src : Account env absent} (hweth : ¬Pooled env env.WETH)
    (hu : Unapproved env w) (h : WKASH.unwrap env w src value = .ok w') : Outside env fees w w' := by
  obtain ⟨t, hburn, hv, -, rfl⟩ := WKASH.unwrap_eq_ok.mp h
  have hc : (w.token env.WETH).Conserved → t.Conserved := fun hc => hc.burn hburn
  obtain ⟨-, -, rfl⟩ := ArkSwapERC20.burn_eq_ok.mp hburn
  refine outside_setToken hu hweth hc rfl (fun a ha => ?_) fun hb => ?_
  · have hne : a ≠ src := fun h => src.2.2.2.1 (h ▸ ha)
    exact (Ledger.debit_of_ne _ _ hne).ge
  · rw [World.setToken_token]
    exact (Nat.sub_le_sub_right hb value).trans_eq (Ledger.move_src value src.2.2.1.symm).symm

/-- Neither tokens nor pairs change. -/
theorem outside_of_eq (hu : Unapproved env w) (ht : w'.token = w.token) (hp : w'.pair = w.pair)
    (hlogs : w'.logs = w.logs)
    (hget : w'.factory.getPair = w.factory.getPair)
    (hall : w'.factory.allPairs = w.factory.allPairs)
    (hfee : ¬fees → w'.factory.feeTo = w.factory.feeTo)
    (hn : w.native env.WETH ≤ w'.native env.WETH) : Outside env fees w w' where
  pair := hp
  logs := hlogs
  getPair := hget
  allPairs := hall
  feeTo := hfee
  conserved t hc := by rwa [ht]
  unapproved := by rwa [Unapproved, ht]
  beside a _ := Beside.of_eq (by rw [hp]) ht
  backed hb := by
    rw [ht]
    exact hb.trans hn

theorem send_outside {src : Account env absent} (hu : Unapproved env w) :
    Outside env fees w (w.moveNative src dst value) :=
  outside_of_eq hu rfl rfl rfl rfl rfl (fun _ => rfl) (Ledger.le_move src.2.2.1.symm)

theorem setFeeTo_outside {sender feeTo : Address} {f : ArkSwapFactory} (hf : fees)
    (hu : Unapproved env w) (h : w.factory.setFeeTo sender feeTo = .ok f) : Outside env fees w { w with factory := f } := by
  simp only [ArkSwapFactory.setFeeTo, bind_eq_ok, pure_eq_ok, Except.ok.injEq] at h
  obtain ⟨-, -, rfl⟩ := h
  exact outside_of_eq hu rfl rfl rfl rfl rfl (fun hn => (hn hf).elim) (le_refl _)

theorem setFeeToSetter_outside {sender feeToSetter : Address} {f : ArkSwapFactory}
    (hu : Unapproved env w) (h : w.factory.setFeeToSetter sender feeToSetter = .ok f) :
    Outside env fees w { w with factory := f } := by
  simp only [ArkSwapFactory.setFeeToSetter, bind_eq_ok, pure_eq_ok, Except.ok.injEq] at h
  obtain ⟨-, -, rfl⟩ := h
  exact outside_of_eq hu rfl rfl rfl rfl rfl (fun _ => rfl) (le_refl _)

end Accounts

section Pairs

/-- What a call of the pair at `b` does to everything else. -/
structure Inside (b : Address) (w w' : World) : Prop where
  pair : ∀ a, a ≠ b → w'.pair a = w.pair a
  factory : w'.factory = w.factory
  native : w'.native = w.native
  allowance : ∀ t, (w'.token t).allowance = (w.token t).allowance
  supply : ∀ t, t ≠ b → (w'.token t).totalSupply = (w.token t).totalSupply
  held : ∀ t a, a ≠ b → w.balanceOf t a ≤ w'.balanceOf t a
  beside : ∀ a, a ≠ b → Beside a w w'

variable {b sender dst : Address} {p : ArkSwapPair}

theorem Inside.trans (h : Inside b w w') (h' : Inside b w' w'') : Inside b w w'' where
  pair a ha := (h'.pair a ha).trans (h.pair a ha)
  factory := h'.factory.trans h.factory
  native := h'.native.trans h.native
  allowance t := (h'.allowance t).trans (h.allowance t)
  supply t ht := (h'.supply t ht).trans (h.supply t ht)
  held t a ha := (h.held t a ha).trans (h'.held t a ha)
  beside a ha := (h.beside a ha).trans (h'.beside a ha)

/-- Only storage of the pair changes. -/
theorem inside_of_eq (hp : ∀ a, a ≠ b → w'.pair a = w.pair a) (ht : w'.token = w.token)
    (hf : w'.factory = w.factory) (hn : w'.native = w.native) : Inside b w w' where
  pair := hp
  factory := hf
  native := hn
  allowance t := by rw [ht]
  supply t _ := by rw [ht]
  held t a _ := by rw [World.balanceOf, World.balanceOf, ht]
  beside a ha := Beside.of_eq (hp a ha) ht

theorem inside_moved {token : Address} {value : Nat} (h0 : b ≠ 0)
    (hle : value ≤ w.balanceOf token b) : Inside b w (w.moved token b dst value) where
  pair _ _ := rfl
  factory := rfl
  native := rfl
  allowance t := by
    by_cases ht : t = token
    · subst ht
      rw [World.moved_token]
    · rw [World.moved_token_of_ne _ _ _ ht]
  supply t _ := by
    by_cases ht : t = token
    · subst ht
      rw [World.moved_token]
    · rw [World.moved_token_of_ne _ _ _ ht]
  held t a ha := by
    by_cases ht : t = token
    · subst ht
      rw [World.balanceOf, World.balanceOf, World.moved_token]
      exact Ledger.le_move ha
    · rw [World.balanceOf_moved_of_ne _ _ _ _ ht]
  beside _ ha := beside_moved h0 ha hle

theorem inside_paidOut {amount0 amount1 : Nat} (h0 : b ≠ 0)
    (h₀ : amount0 ≤ w.balanceOf p.token0 b)
    (h₁ : amount1 ≤ (w.moved p.token0 b dst amount0).balanceOf p.token1 b) :
    Inside b w (paidOut w b dst p amount0 amount1) :=
  (inside_moved h0 h₀).trans (inside_moved h0 h₁)

/-- The pair issues shares, or redeems what it was sent. -/
theorem inside_shares {lp : ArkSwapERC20} (ha : lp.allowance = (w.token b).allowance)
    (hb : ∀ a, a ≠ b → (w.token b).balanceOf a ≤ lp.balanceOf a)
    (hc : (w.token b).Conserved → lp.Conserved) : Inside b w (w.setToken b lp) where
  pair _ _ := rfl
  factory := rfl
  native := rfl
  allowance t := by
    by_cases ht : t = b
    · subst ht
      rw [World.setToken_token, ha]
    · rw [World.setToken_token_of_ne ht]
  supply t ht := by rw [World.setToken_token_of_ne ht]
  held t a hab := by
    by_cases ht : t = b
    · subst ht
      rw [World.balanceOf_setToken]
      exact hb a hab
    · rw [World.balanceOf_setToken_of_ne _ ht]
  beside a hab := Beside.setAsset hab.symm (hb a hab) hc

theorem pair_of_update {q : ArkSwapPair} (h : w'.pair = Function.update w.pair b (some q)) :
    ∀ a, a ≠ b → w'.pair a = w.pair a := fun a ha => by rw [h, Function.update_of_ne ha]

theorem mint_inside {t₀ t₁ : Address} (h : Sound b t₀ t₁ w p) {L : Nat}
    (hm : ArkSwapPair.mint w b sender dst = .ok (L, w')) : Inside b w w' := by
  obtain ⟨_, _, _, -, hreports⟩ := mint_reports hm
  obtain ⟨-, hr₀, hr₁, -, lp, lp', q, hL, hlp, -, hpair, htok, hfactory⟩ :=
    mint_ok h.pair h.kLast_lt hm
  obtain ⟨hraised, hallowance, -⟩ := Call.mintLiquidity_raised hL
  have hc := (h.mintLiquidity_covered hr₀ hr₁ hL).1.mint hlp
  have hshares : Inside b w (w.setToken b lp') := by
    obtain ⟨-, -, rfl⟩ := ArkSwapERC20.mint_eq_ok.mp hlp
    refine inside_shares hallowance (fun a _ => ?_) fun _ => hc
    calc (w.token b).balanceOf a ≤ (feeLedger w b p).balanceOf a := Call.feeLedger_raised w b p a
      _ ≤ lp.balanceOf a := hraised a
      _ ≤ Ledger.credit lp.balanceOf dst L a := Ledger.le_credit _ _ _ _
  exact hshares.trans (inside_of_eq (pair_of_update hpair) htok hfactory hreports.native)

theorem burn_inside {t₀ t₁ : Address} (hd : Deployed env b t₀ t₁) (h : Sound b t₀ t₁ w p)
    {amounts : Nat × Nat} (hm : ArkSwapPair.burn env w b sender dst = .ok (amounts, w')) :
    Inside b w w' := by
  obtain ⟨_, -, hreports⟩ := burn_reports hm
  obtain ⟨-, -, -, -, hs₀, hs₁⟩ := h.deployed hd
  obtain ⟨a₀, a₁⟩ := amounts
  obtain ⟨-, -, -, -, -, -, lp, q, hlp, hle₀, hle₁, -, hpair, htok, hfactory⟩ :=
    burn_ok hs₀ hs₁ h.pair h.kLast_lt hm
  have hc := h.fee_conserved.burn hlp
  have hshares : Inside b w (w.setToken b lp) := by
    obtain ⟨-, -, rfl⟩ := ArkSwapERC20.burn_eq_ok.mp hlp
    refine inside_shares rfl (fun a ha => ?_) fun _ => hc
    exact (Call.feeLedger_raised w b p a).trans_eq (Ledger.debit_of_ne _ _ ha).symm
  exact (hshares.trans (inside_paidOut hd.pool_ne hle₀ hle₁)).trans
    (inside_of_eq (pair_of_update hpair) htok hfactory hreports.native)

theorem skim_inside {t₀ t₁ : Address} (hd : Deployed env b t₀ t₁) (h : Sound b t₀ t₁ w p)
    (hm : ArkSwapPair.skim env w b dst = .ok ((), w')) : Inside b w w' := by
  obtain ⟨-, -, -, -, hs₀, hs₁⟩ := h.deployed hd
  obtain ⟨-, -, -, hpair, htok, hfactory⟩ := skim_ok hs₀ hs₁ h.pair hm
  exact (inside_paidOut hd.pool_ne (Nat.sub_le _ _) (Nat.sub_le _ _)).trans
    (inside_of_eq (fun a _ => by rw [hpair]; rfl) htok hfactory (skim_reports hm).native)

theorem sync_inside {t₀ t₁ : Address} (h : Sound b t₀ t₁ w p)
    (hm : ArkSwapPair.sync w b = .ok ((), w')) : Inside b w w' := by
  obtain ⟨_, -, hreports⟩ := sync_reports hm
  obtain ⟨-, q, -, hpair, htok, hfactory⟩ := sync_ok h.pair hm
  exact inside_of_eq (pair_of_update hpair) htok hfactory hreports.native

/-- What the callback of a swap finds: both outputs paid and the lock taken. -/
def lent (w : World) (b dst : Address) (p : ArkSwapPair) (amount0Out amount1Out : Nat) : World :=
  paidOut (w.setPair b { p with unlocked := 0 }) b dst p amount0Out amount1Out

theorem lent_pair (w : World) (b dst : Address) (p : ArkSwapPair) (amount0Out amount1Out : Nat) :
    (lent w b dst p amount0Out amount1Out).pair b = some { p with unlocked := 0 } := by
  rw [lent, paidOut, World.moved_pair, World.moved_pair, World.setPair_pair]

theorem swap_inside {t₀ t₁ : Address} (hd : Deployed env b t₀ t₁) (h : Sound b t₀ t₁ w p)
    {o₀ o₁ : Nat} {data : Option (World → Except String World)}
    (hm : ArkSwapPair.swap env w b sender o₀ o₁ dst data = .ok ((), w')) :
    Inside b w (lent w b dst p o₀ o₁) ∧
      ∃ w₁ q a₀ a₁, callback data (lent w b dst p o₀ o₁) = .ok w₁ ∧ Inside b w₁ w' ∧
        w'.pair b = some q ∧ Reported w₁ w'
          [.sync b q.reserve0 q.reserve1, .swap b sender a₀ a₁ o₀ o₁ dst] := by
  obtain ⟨-, -, -, -, hs₀, hs₁⟩ := h.deployed hd
  obtain ⟨-, -, -, -, -, hle₀, hle₁, w₁, p₁, q, hcall, -, -, -, hpair, htok, hfactory⟩ :=
    swap_ok hs₀ hs₁ h.pair hm
  obtain ⟨p', u, v, w₂, q', a₀, a₁, hp', hu, hv, hcall', hq', hreports⟩ := swap_reports hm
  obtain rfl := Option.some.inj (h.pair.symm.trans hp')
  obtain ⟨-, rfl⟩ := sendOut_ok hs₀ hu
  obtain ⟨-, rfl⟩ := sendOut_ok hs₁ hv
  obtain rfl := Except.ok.inj (hcall.symm.trans hcall')
  refine ⟨(inside_of_eq (fun a ha => World.setPair_pair_of_ne ha) rfl rfl rfl).trans
    (inside_paidOut hd.pool_ne hle₀ hle₁), w₁, q', a₀, a₁, hcall,
    inside_of_eq (pair_of_update hpair) htok hfactory hreports.native, hq', hreports⟩

end Pairs

end Exchange

end ArkSwap
