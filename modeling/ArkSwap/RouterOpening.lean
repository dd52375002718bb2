import ArkSwap.PairAddress
import ArkSwap.PairExit
import ArkSwap.RouterDeposit
import ArkSwap.RouterSupporting

/-! The first deposit through the router, after whatever others did to the pair
while it had no shares. -/

namespace ArkSwap

open Checked ArkSwapPair ArkSwapLibrary ArkSwapRouter02

/-- The smallest product of amounts that mints a share beyond the locked ones. -/
def openingK : Nat := (MINIMUM_LIQUIDITY + 1) ^ 2

namespace Sound

variable {env : Env} {self t₀ t₁ sender dst : Address} {w w' : World} {p : ArkSwapPair}

theorem feeLedger_unopened (h0 : (w.token self).totalSupply = 0) :
    feeLedger w self p = w.token self := by
  simp [feeLedger, protocolFee, h0]

theorem first_mint_k (h : Sound self t₀ t₁ w p) (h0 : (w.token self).totalSupply = 0) {L : Nat}
    (hm : ArkSwapPair.mint w self sender dst = .ok (L, w')) :
    openingK ≤ (w.balanceOf t₀ self - p.reserve0) * (w.balanceOf t₁ self - p.reserve1) ∧
      0 < L ∧ L ≤ w'.balanceOf self dst := by
  obtain ⟨-, -, -, hpos, lp, lp', q, hL, hmint, -, -, htok, -⟩ := mint_ok h.pair h.kLast_lt hm
  rw [feeLedger_unopened h0, h.token0, h.token1] at hL
  rcases mintLiquidity_ok hL with ⟨-, -, hroot, -⟩ | ⟨hne, -⟩
  · obtain ⟨-, -, rfl⟩ := ArkSwapERC20.mint_eq_ok.mp hmint
    refine ⟨Nat.le_sqrt'.mp (by omega), hpos, ?_⟩
    rw [World.balanceOf, htok, Function.update_self]
    exact (Nat.le_add_left _ _).trans (Ledger.credit_self _ _ _).ge
  · exact (hne h0).elim

theorem mintLiquidity_opening (dst : Address) {lp : ArkSwapERC20} {a₀ a₁ : Nat} (r₀ r₁ : Nat)
    (h0 : lp.totalSupply = 0) (hbal : ∀ a, lp.balanceOf a = 0) (hword : a₀ * a₁ < Uint.size)
    (hk : openingK ≤ a₀ * a₁) :
    ∃ L lp', mintLiquidity lp a₀ a₁ r₀ r₁ = .ok (L, lp') ∧ L > 0 ∧
      ∃ lp'', lp'.mint dst L = .ok lp'' := by
  have hroot : MINIMUM_LIQUIDITY + 1 ≤ Nat.sqrt (a₀ * a₁) := Nat.le_sqrt'.mpr hk
  have hlt := Math.sqrt_lt_of_word hword
  have hmul : SafeMath.mul a₀ a₁ = .ok (a₀ * a₁) := if_pos hword
  have hsub : SafeMath.sub (Nat.sqrt (a₀ * a₁)) MINIMUM_LIQUIDITY =
      .ok (Nat.sqrt (a₀ * a₁) - MINIMUM_LIQUIDITY) := if_pos (by omega)
  have hlock : lp.mint 0 MINIMUM_LIQUIDITY = .ok (issued lp 0 MINIMUM_LIQUIDITY) := by
    refine ArkSwapERC20.mint_eq_ok.mpr ⟨?_, ?_, rfl⟩
    · rw [h0]
      norm_num [MINIMUM_LIQUIDITY, Uint.size]
    · rw [hbal]
      norm_num [MINIMUM_LIQUIDITY, Uint.size]
  refine ⟨_, issued lp 0 MINIMUM_LIQUIDITY, ?_, Nat.sub_pos_of_lt hroot, _, ArkSwapERC20.mint_eq_ok.mpr ⟨?_, ?_, rfl⟩⟩
  · rw [mintLiquidity, if_pos h0, hmul, ok_bind, Math.sqrt_eq hword, ok_bind, hsub, ok_bind, hlock]
    rfl
  · rw [issued_totalSupply, h0]
    unfold Uint.size
    omega
  · have hle : (issued lp 0 MINIMUM_LIQUIDITY).balanceOf dst ≤ MINIMUM_LIQUIDITY := by
      by_cases hd : dst = 0
      · subst hd
        rw [issued_balanceOf, Ledger.credit_self, hbal, Nat.zero_add]
      · rw [issued_balanceOf, Ledger.credit_of_ne _ _ hd, hbal]
        exact Nat.zero_le _
    unfold Uint.size
    omega

theorem first_mint_defined (h : Sound self t₀ t₁ w p) (h0 : (w.token self).totalSupply = 0)
    (hb₀ : w.balanceOf t₀ self ≤ Uint.max112) (hb₁ : w.balanceOf t₁ self ≤ Uint.max112)
    (hk : openingK ≤ (w.balanceOf t₀ self - p.reserve0) * (w.balanceOf t₁ self - p.reserve1)) :
    ∃ r, ArkSwapPair.mint w self sender dst = .ok r := by
  have hs₀ := h.solvent0
  have hs₁ := h.solvent1
  rw [← h.token0, ← h.token1] at *
  obtain ⟨feeOn, -, hfee⟩ := h.mintFee_ok 0
  rw [feeLedger_unopened h0] at hfee
  have hstore : (w.setPair self { p with unlocked := 0 }).storage self =
      .ok { p with unlocked := 0 } := World.storage_eq_ok.mpr (World.setPair_pair _ _ _)
  have hsub₀ : SafeMath.sub (w.balanceOf p.token0 self) p.reserve0 =
      .ok (w.balanceOf p.token0 self - p.reserve0) := if_pos hs₀
  have hsub₁ : SafeMath.sub (w.balanceOf p.token1 self) p.reserve1 =
      .ok (w.balanceOf p.token1 self - p.reserve1) := if_pos hs₁
  have hword : (w.balanceOf p.token0 self - p.reserve0) * (w.balanceOf p.token1 self - p.reserve1) <
      Uint.size := (product_lt ((Nat.sub_le _ _).trans hb₀) ((Nat.sub_le _ _).trans hb₁)).trans
        (by norm_num [Uint.size])
  rw [ArkSwapPair.mint, lock_open _ h.pair h.unlocked, hstore]
  simp only [ok_bind, World.balanceOf_setPair, World.setPair_token, World.setPair_factory, hsub₀,
    hsub₁, hfee]
  have hshares : ∀ a, (w.token self).balanceOf a = 0 := fun a =>
    Nat.le_zero.mp (h0 ▸ (h.conserved self (.inl rfl)).1 ▸ Ledger.le_sum _ a)
  obtain ⟨L, lp, hL, hpos, lp', hlp'⟩ :=
    mintLiquidity_opening dst p.reserve0 p.reserve1 h0 hshares hword hk
  obtain ⟨q, hq⟩ := update_defined { p with
    unlocked := 0, kLast := if w.factory.feeTo = 0 then 0 else p.kLast } w.timestamp
    p.reserve0 p.reserve1 hb₀ hb₁
  obtain ⟨-, -, e₀, e₁, -⟩ := update_ok hq
  obtain ⟨q', hq'⟩ := recordK_defined (p := q) feeOn (e₀ ▸ hb₀) (e₁ ▸ hb₁)
  simp only [hL, ok_bind, require_of hpos, hlp', World.setPair_timestamp, hq, hq', pure_eq_ok,
    World.storage, World.emit_pair, World.setPair_pair]
  exact ⟨_, rfl⟩

end Sound

/-- Two plain tokens and the address of their pair, which is like no other. -/
structure Site (env : Env) (a b : Address) : Prop where
  ne : a ≠ b
  nonzero : min a b ≠ 0
  code : env.pairCodeHash = PAIR_INIT_CODE_HASH
  deployed : Deployed env (pool env a b) (min a b) (max a b)
  factory_ne : pool env a b ≠ env.factory
  router_ne : pool env a b ≠ env.router
  WETH_ne : pool env a b ≠ env.WETH

theorem pool_comm (env : Env) (a b : Address) : pool env b a = pool env a b := by
  rw [pool, pool, min_comm, max_comm]

theorem Site.symm {env : Env} {a b : Address} (h : Site env a b) : Site env b a where
  ne := h.ne.symm
  nonzero := min_comm a b ▸ h.nonzero
  code := h.code
  deployed := by
    rw [pool_comm, min_comm, max_comm]
    exact h.deployed
  factory_ne := pool_comm env a b ▸ h.factory_ne
  router_ne := pool_comm env a b ▸ h.router_ne
  WETH_ne := pool_comm env a b ▸ h.WETH_ne

/-- What others can do to the pair of two tokens while it has no shares. -/
inductive Prior (self : Address) where
  | createPair (swapped : Bool)
  | donate (token src : Asset self) (value : Nat)
  | sync
  | skim (dst : Address)

/-- A pair without shares: not created yet, or never opened. -/
inductive Unopened (env : Env) (a b : Address) (w : World) : Prop
  | absent (pair : w.pair (pool env a b) = none) (getPair : w.factory.getPair a b = 0)
      (getPair_swap : w.factory.getPair b a = 0) (conserved₀ : (w.token (min a b)).Conserved)
      (conserved₁ : (w.token (max a b)).Conserved)
  | present (p : ArkSwapPair) (sound : Sound (pool env a b) (min a b) (max a b) w p)
      (shares : (w.token (pool env a b)).totalSupply = 0) (getPair : w.factory.getPair a b ≠ 0)
      (getPair_swap : w.factory.getPair b a ≠ 0)

namespace Prior

variable {env : Env} {a b : Address} {w w' : World}

def exec (env : Env) (a b : Address) (w : World) : Prior (pool env a b) → Except String World
  | createPair swapped => do
      let (_, w) ← ArkSwapFactory.createPair env w (if swapped then b else a)
        (if swapped then a else b)
      return w
  | donate token src value => Call.exec env w (.pay token src (pool env a b) value)
  | sync => Call.exec env w (.sync : Call (pool env a b))
  | skim dst => Call.exec env w (.skim dst : Call (pool env a b))

def step (env : Env) (a b : Address) (w : World) (s : Nat × Prior (pool env a b)) : World :=
  attempt { w with timestamp := s.1 } (exec env a b { w with timestamp := s.1 } s.2)

abbrev run (env : Env) (a b : Address) : World → List (Nat × Prior (pool env a b)) → World :=
  Run.run (step env a b)

theorem createPair_deploys {c d pair : Address} (hne : c ≠ d)
    (hcode : env.pairCodeHash = PAIR_INIT_CODE_HASH)
    (h : ArkSwapFactory.createPair env w c d = .ok (pair, w')) :
    w.factory.getPair (min c d) (max c d) = 0 ∧ w.pair (pool env c d) = none ∧
      w'.token = (w.deploy (pool env c d) (min c d) (max c d)).token ∧
      w'.pair = (w.deploy (pool env c d) (min c d) (max c d)).pair ∧
      w'.timestamp = w.timestamp ∧ w'.factory.getPair c d = pool env c d ∧
      w'.factory.getPair d c = pool env c d := by
  rw [ArkSwapFactory.createPair, sorted_eq] at h
  simp only [bind_eq_ok, require_eq_ok, pure_eq_ok, Except.ok.injEq, Prod.mk.injEq, hcode] at h
  obtain ⟨-, -, -, -, -, hget, -, ⟨hnone, -⟩, -, rfl⟩ := h
  refine ⟨hget, hnone, rfl, rfl, rfl, ?_, ?_⟩
  all_goals
    rcases lt_or_ge c d with hlt | hge
    · simp [World.emit, Function.update_apply, min_eq_left hlt.le, max_eq_right hlt.le, hne, pool]
    · simp [World.emit, Function.update_apply, min_eq_right hge, max_eq_left hge, hne.symm, pool]

end Prior

theorem transfer_factory {env : Env} {w w' : World} {token src dst : Address} {value : Nat}
    (h : w.transfer env token src dst value = .ok w') : w'.factory = w.factory := by
  simp only [World.transfer, bind_eq_ok, pure_eq_ok, Except.ok.injEq] at h
  obtain ⟨-, -, -, -, rfl⟩ := h
  rfl

namespace Unopened

variable {env : Env} {a b c d pair : Address} {w w' : World}

theorem createPair (hs : Site env a b) (h : Unopened env a b w)
    (hc : ArkSwapFactory.createPair env w a b = .ok (pair, w')) : Unopened env a b w' := by
  obtain ⟨hget, -, htok, hpair, -, hab, hba⟩ := Prior.createPair_deploys hs.ne hs.code hc
  cases h with
  | present p _ _ hab' hba' => exact (sorted_pair (P := fun x y => w.factory.getPair x y ≠ 0) hab' hba' hget).elim
  | absent _ _ _ hc₀ hc₁ =>
    have hkeep : ∀ t, t ≠ pool env a b → w'.token t = w.token t := fun t ht => by
      rw [htok, World.deploy, World.setPair_token, World.setToken_token_of_ne ht]
    have hshares : w'.token (pool env a b) = .initial := by
      rw [htok, World.deploy, World.setPair_token, World.setToken_token]
    have hfresh : Fresh (pool env a b) (min a b) (max a b) w' := by
      refine ⟨by rw [hpair, World.deploy, World.setPair_pair], hshares, ?_, ?_⟩
      · exact hkeep _ hs.deployed.token0_ne ▸ hc₀
      · exact hkeep _ hs.deployed.token1_ne ▸ hc₁
    obtain ⟨p, hp⟩ := hfresh.sound hs.deployed
    refine .present p hp (by rw [hshares]; rfl) ?_ ?_
    · rw [hab]
      exact hs.deployed.pool_ne
    · rw [hba]
      exact hs.deployed.pool_ne

theorem symm (h : Unopened env a b w) : Unopened env b a w := by
  cases h with
  | absent hp hab hba h₀ h₁ =>
    rw [min_comm, max_comm] at *
    exact .absent (by rwa [pool_comm]) hba hab h₀ h₁
  | present p hp h0 hab hba =>
    rw [← pool_comm, min_comm, max_comm] at hp
    exact .present p hp (by rwa [pool_comm]) hba hab

theorem at_time (h : Unopened env a b w) (ts : Nat) :
    Unopened env a b { w with timestamp := ts } := by
  cases h with
  | absent hp hab hba h₀ h₁ => exact .absent hp hab hba h₀ h₁
  | present p hp h0 hab hba => exact .present p (hp.at_time ts) h0 hab hba

theorem lock_absent {α : Type} {body : World → Except String (α × World)} {r : α × World}
    {self : Address} (hp : w.pair self = none) (h : lock w self body = .ok r) : False := by
  obtain ⟨p, -, -, hp', -⟩ := lock_eq_ok.mp h
  rw [hp] at hp'
  cases hp'

theorem exec (hs : Site env a b) (h : Unopened env a b w) {s : Prior (pool env a b)}
    (hx : Prior.exec env a b w s = .ok w') : Unopened env a b w' := by
  cases s with
  | createPair swapped =>
    simp only [Prior.exec, bind_eq_ok, pure_eq_ok, Except.ok.injEq] at hx
    obtain ⟨⟨pair, w₁⟩, hc, rfl⟩ := hx
    cases swapped with
    | false => exact h.createPair hs hc
    | true => exact (h.symm.createPair hs.symm hc).symm
  | donate token src value =>
    have hb : Beside (pool env a b) w w' := Call.exec_beside (by exact id) hx
    have hf := transfer_factory hx
    cases h with
    | absent hp hab hba h₀ h₁ =>
      exact .absent (hb.pair.trans hp) (hf ▸ hab) (hf ▸ hba) (hb.conserved _ h₀) (hb.conserved _ h₁)
    | present p hp h0 hab hba =>
      exact .present p (hp.beside hs.deployed.token0_ne hs.deployed.token1_ne hb)
        (hb.supply.trans h0) (hf ▸ hab) (hf ▸ hba)
  | sync =>
    simp only [Prior.exec, Call.exec, bind_eq_ok, pure_eq_ok, Except.ok.injEq] at hx
    obtain ⟨⟨⟨⟩, w₁⟩, hm, rfl⟩ := hx
    cases h with
    | absent hp => exact (lock_absent hp hm).elim
    | present p hp h0 hab hba =>
      obtain ⟨q, hq, hlp, -⟩ := hp.sync hm
      obtain ⟨-, -, -, -, -, hf⟩ := sync_ok hp.pair hm
      exact .present q hq (hlp ▸ h0) (hf ▸ hab) (hf ▸ hba)
  | skim dst =>
    simp only [Prior.exec, Call.exec, bind_eq_ok, pure_eq_ok, Except.ok.injEq] at hx
    obtain ⟨⟨⟨⟩, w₁⟩, hm, rfl⟩ := hx
    cases h with
    | absent hp => exact (lock_absent hp hm).elim
    | present p hp h0 hab hba =>
      obtain ⟨hq, hlp⟩ := hp.skim hs.deployed hm
      obtain ⟨-, -, -, -, -, hf⟩ := skim_ok (hp.token0 ▸ hs.deployed.standard0)
        (hp.token1 ▸ hs.deployed.standard1) hp.pair hm
      exact .present p hq (hlp ▸ h0) (hf ▸ hab) (hf ▸ hba)

theorem step (hs : Site env a b) (h : Unopened env a b w) (s : Nat × Prior (pool env a b)) :
    Unopened env a b (Prior.step env a b w s) := by
  rw [Prior.step]
  rcases hx : Prior.exec env a b { w with timestamp := s.1 } s.2 with e | w'
  · exact h.at_time s.1
  · exact (h.at_time s.1).exec hs hx

theorem run (hs : Site env a b) (h : Unopened env a b w)
    (steps : List (Nat × Prior (pool env a b))) : Unopened env a b (Prior.run env a b w steps) :=
  Run.run_inv (Unopened env a b) (fun _ s h => h.step hs s) h steps

end Unopened

section Matching

variable {env : Env} {a b : Address} {w w₁ : World} {rA rB desiredA desiredB : Nat}

/-- The amounts that a deposit without minimums is matched to. -/
def matched (rA rB desiredA desiredB : Nat) : Nat × Nat :=
  if rA = 0 ∧ rB = 0 then (desiredA, desiredB)
  else if desiredA * rB / rA ≤ desiredB then (desiredA, desiredA * rB / rA)
  else (desiredB * rA / rB, desiredB)

/-- Reserves that a deposit can be matched to. -/
def Quotable (rA rB desiredA : Nat) : Prop :=
  rA = 0 ∧ rB = 0 ∨ 0 < rA ∧ 0 < rB ∧ desiredA * rB < Uint.size

theorem matched_le (desiredB : Nat) (h : Quotable rA rB desiredA) :
    (matched rA rB desiredA desiredB).1 ≤ desiredA ∧
      (matched rA rB desiredA desiredB).2 ≤ desiredB := by
  unfold matched
  split_ifs with h0 hle
  · exact ⟨le_rfl, le_rfl⟩
  · exact ⟨le_rfl, hle⟩
  · obtain ⟨hrA, -, -⟩ := h.resolve_left h0
    exact ⟨quote_back_le hrA (Nat.lt_of_not_le hle), le_rfl⟩

theorem addLiquidityAmounts_matched (hpair : withPair env w a b = .ok w₁)
    (hres : getReserves env w₁ a b = .ok (rA, rB)) (hA : 0 < desiredA) (hB : 0 < desiredB)
    (h : Quotable rA rB desiredA) :
    addLiquidityAmounts env w a b desiredA desiredB 0 0 =
      .ok (matched rA rB desiredA desiredB, w₁) := by
  unfold addLiquidityAmounts matched
  simp only [hpair, ok_bind, hres]
  by_cases h0 : rA = 0 ∧ rB = 0
  · rw [if_pos h0, if_pos h0]
    rfl
  · obtain ⟨hrA, hrB, hlt⟩ := h.resolve_left h0
    rw [if_neg h0, if_neg h0, quote_eq_ok.mpr ⟨hA, hrA, hrB, hlt, rfl⟩, ok_bind]
    by_cases hle : desiredA * rB / rA ≤ desiredB
    · rw [if_pos hle, if_pos hle, require_of (Nat.zero_le _)]
      rfl
    · have hback := Nat.lt_of_not_le hle
      have hlt' : desiredB * rA < Uint.size :=
        ((Nat.lt_div_iff_mul_lt hrA).mp hback).trans_le ((Nat.sub_le _ _).trans hlt.le)
      rw [if_neg hle, if_neg hle, quote_eq_ok.mpr ⟨hB, hrB, hrA, hlt', rfl⟩, ok_bind,
        require_of (quote_back_le hrA hback), ok_bind, require_of (Nat.zero_le _)]
      rfl

theorem addLiquidityAmounts_unquotable (desiredB : Nat) (hpair : withPair env w a b = .ok w₁)
    (hres : getReserves env w₁ a b = .ok (rA, rB)) (h : ¬Quotable rA rB desiredA) :
    ∃ e, addLiquidityAmounts env w a b desiredA desiredB 0 0 = .error e := by
  unfold addLiquidityAmounts
  simp only [hpair, ok_bind, hres]
  rw [if_neg fun h0 => h (.inl h0)]
  rcases hq : quote desiredA rA rB with e | y
  · exact ⟨e, rfl⟩
  · obtain ⟨-, hrA, hrB, hlt, -⟩ := quote_eq_ok.mp hq
    exact (h (.inr ⟨hrA, hrB, hlt⟩)).elim

end Matching

section Deposits

variable {env : Env} {a b sender dst : Address} {w w₁ w' : World} {p : ArkSwapPair}
  {desiredA desiredB deadline : Nat}

/-- What the pair of two tokens records of one of them. -/
def recorded (env : Env) (a b : Address) (w : World) (t : Address) : Nat :=
  (w.pair (pool env a b)).elim 0 fun p => reserveOf p t

/-- What the pair holds of a token beyond its record. -/
def surplus (env : Env) (a b : Address) (w : World) (t : Address) : Nat :=
  w.balanceOf t (pool env a b) - recorded env a b w t

/-- The amounts a deposit is matched to in a state. -/
def deposited (env : Env) (a b : Address) (w : World) (desiredA desiredB : Nat) : Nat × Nat :=
  matched (recorded env a b w a) (recorded env a b w b) desiredA desiredB

/-- A deposit in time, worth a share, paid for and within the pair's range. -/
structure Deposit (env : Env) (a b : Address) (w : World) (sender : Address)
    (desiredA desiredB deadline : Nat) : Prop where
  worth : openingK ≤ desiredA * desiredB
  in_time : w.timestamp ≤ deadline
  sender_ne : sender ≠ pool env a b
  heldA : desiredA ≤ w.balanceOf a sender
  heldB : desiredB ≤ w.balanceOf b sender
  approvedA : desiredA ≤ (w.token a).allowance sender env.router
  approvedB : desiredB ≤ (w.token b).allowance sender env.router
  fitsA : w.balanceOf a (pool env a b) + (deposited env a b w desiredA desiredB).1 ≤ Uint.max112
  fitsB : w.balanceOf b (pool env a b) + (deposited env a b w desiredA desiredB).2 ≤ Uint.max112

/-- The deposit succeeds and its recipient has shares. -/
def Opens (env : Env) (a b : Address) (w : World) (sender : Address) (desiredA desiredB : Nat)
    (dst : Address) (deadline : Nat) : Prop :=
  ∃ amountA amountB liquidity w',
    addLiquidity env w sender a b desiredA desiredB 0 0 dst deadline =
        .ok ((amountA, amountB, liquidity), w') ∧
      0 < liquidity ∧ liquidity ≤ w'.balanceOf (pool env a b) dst

/-- Nothing was synchronised, or both tokens were, and the deposit in their ratio
is still worth a share together with what came after. -/
def Openable (env : Env) (a b : Address) (w : World) (desiredA desiredB : Nat) : Prop :=
  recorded env a b w a = 0 ∧ recorded env a b w b = 0 ∨
    0 < recorded env a b w a ∧ 0 < recorded env a b w b ∧
      desiredA * recorded env a b w b < Uint.size ∧
      openingK ≤ ((deposited env a b w desiredA desiredB).1 + surplus env a b w a) *
        ((deposited env a b w desiredA desiredB).2 + surplus env a b w b)

theorem Site.plain (hs : Site env a b) (hp : Sound (pool env a b) (min a b) (max a b) w p) :
    (Plain env w a ∧ a ≠ pool env a b) ∧ Plain env w b ∧ b ≠ pool env a b :=
  of_sorted (P := fun t => Plain env w t ∧ t ≠ pool env a b)
    ⟨⟨hs.deployed.standard0, hp.conserved _ (.inr (.inl rfl))⟩, hs.deployed.token0_ne⟩
    ⟨⟨hs.deployed.standard1, hp.conserved _ (.inr (.inr rfl))⟩, hs.deployed.token1_ne⟩

theorem deposit_paid (hs : Site env a b) (hp : Sound (pool env a b) (min a b) (max a b) w p)
    {x y : Nat} (hsender : sender ≠ pool env a b) (hx : x ≤ w.balanceOf a sender)
    (hy : y ≤ w.balanceOf b sender) (hx' : x ≤ (w.token a).allowance sender env.router)
    (hy' : y ≤ (w.token b).allowance sender env.router) :
    ∃ w₁ w₂, TransferHelper.safeTransferFrom env w a sender (pool env a b) x = .ok w₁ ∧
      TransferHelper.safeTransferFrom env w₁ b sender (pool env a b) y = .ok w₂ ∧
      Sound (pool env a b) (min a b) (max a b) w₂ p ∧
      w₂.token (pool env a b) = w.token (pool env a b) ∧
      w₂.balanceOf a (pool env a b) = w.balanceOf a (pool env a b) + x ∧
      w₂.balanceOf b (pool env a b) = w.balanceOf b (pool env a b) + y := by
  obtain ⟨⟨hpa, hna⟩, -⟩ := hs.plain hp
  obtain ⟨ta, hoka, hca, hba⟩ := safeTransferFrom_sets (pool env a b) hpa hx hx'
  have hp₁ := hp.beside hs.deployed.token0_ne hs.deployed.token1_ne
    (Beside.setAsset hna (hba ▸ Ledger.le_move hsender.symm) fun _ => hca)
  obtain ⟨-, hpb, hnb⟩ := hs.plain hp₁
  have hb : (w.setToken a ta).token b = w.token b := World.setToken_token_of_ne hs.ne.symm
  have hy₁ : y ≤ (w.setToken a ta).balanceOf b sender :=
    (World.balanceOf_setToken_of_ne sender hs.ne.symm).symm ▸ hy
  obtain ⟨tb, hokb, hcb, hbb⟩ := safeTransferFrom_sets (pool env a b) hpb hy₁ (by rwa [hb])
  refine ⟨_, _, hoka, hokb, hp₁.beside hs.deployed.token0_ne hs.deployed.token1_ne
    (Beside.setAsset hnb (hbb ▸ Ledger.le_move hsender.symm) fun _ => hcb), ?_, ?_, ?_⟩
  · rw [World.setToken_token_of_ne hnb.symm, World.setToken_token_of_ne hna.symm]
  · rw [World.balanceOf_setToken_of_ne _ hs.ne, World.balanceOf_setToken, hba,
      Ledger.move_dst _ hsender.symm]
    rfl
  · rw [World.balanceOf_setToken, hbb, hb, Ledger.move_dst _ hsender.symm]
    rfl

theorem reserveOf_min {q : Address} (hp : Sound q (min a b) (max a b) w p) :
    reserveOf p (min a b) = p.reserve0 := if_pos hp.token0.symm

theorem reserveOf_max {q : Address} (hne : min a b ≠ max a b)
    (hp : Sound q (min a b) (max a b) w p) : reserveOf p (max a b) = p.reserve1 :=
  if_neg fun h => hne (h.trans hp.token0).symm

theorem Site.solvent (hs : Site env a b) (hp : Sound (pool env a b) (min a b) (max a b) w p) :
    reserveOf p a ≤ w.balanceOf a (pool env a b) ∧ reserveOf p b ≤ w.balanceOf b (pool env a b) :=
  of_sorted (P := fun t => reserveOf p t ≤ w.balanceOf t (pool env a b))
    (reserveOf_min hp ▸ hp.solvent0) (reserveOf_max hs.deployed.tokens_ne hp ▸ hp.solvent1)

theorem recorded_eq (hp : w.pair (pool env a b) = some p) (t : Address) :
    recorded env a b w t = reserveOf p t := by
  rw [recorded, hp]
  rfl

/-- What the first mint sees is the payment on top of the surplus. -/
theorem first_mint_iff (dst : Address) (hs : Site env a b)
    (hp : Sound (pool env a b) (min a b) (max a b) w p) {x y : Nat} {w₂ : World}
    (hp₂ : Sound (pool env a b) (min a b) (max a b) w₂ p)
    (h0 : (w₂.token (pool env a b)).totalSupply = 0)
    (hx : w₂.balanceOf a (pool env a b) = w.balanceOf a (pool env a b) + x)
    (hy : w₂.balanceOf b (pool env a b) = w.balanceOf b (pool env a b) + y)
    (hfx : w.balanceOf a (pool env a b) + x ≤ Uint.max112)
    (hfy : w.balanceOf b (pool env a b) + y ≤ Uint.max112) :
    (∃ L w', ArkSwapPair.mint w₂ (pool env a b) env.router dst = .ok (L, w') ∧ 0 < L ∧
      L ≤ w'.balanceOf (pool env a b) dst) ↔
      openingK ≤ (x + surplus env a b w a) * (y + surplus env a b w b) := by
  have hk : (w₂.balanceOf (min a b) (pool env a b) - p.reserve0) *
      (w₂.balanceOf (max a b) (pool env a b) - p.reserve1) =
        (x + surplus env a b w a) * (y + surplus env a b w b) := by
    obtain ⟨hsa, hsb⟩ := hs.solvent hp
    have hf := sorted_mul (fun t => w₂.balanceOf t (pool env a b) - reserveOf p t) a b
    simp only [reserveOf_min hp, reserveOf_max hs.deployed.tokens_ne hp] at hf
    rw [hf, hx, hy, surplus, surplus, recorded_eq hp.pair, recorded_eq hp.pair,
      Nat.add_comm _ x, Nat.add_comm _ y, Nat.add_sub_assoc hsa, Nat.add_sub_assoc hsb]
  rw [← hk]
  constructor
  · rintro ⟨L, w', hm, -⟩
    exact (hp₂.first_mint_k h0 hm).1
  · intro hle
    obtain ⟨h₀, h₁⟩ := sorted_pair (P := fun s t => w₂.balanceOf s (pool env a b) ≤ Uint.max112 ∧
      w₂.balanceOf t (pool env a b) ≤ Uint.max112) ⟨hx ▸ hfx, hy ▸ hfy⟩ ⟨hy ▸ hfy, hx ▸ hfx⟩
    obtain ⟨⟨L, w'⟩, hm⟩ := hp₂.first_mint_defined h0 h₀ h₁ hle
    exact ⟨L, w', hm, (hp₂.first_mint_k h0 hm).2⟩

theorem openable_of_quotable (hq : Quotable (recorded env a b w a) (recorded env a b w b) desiredA)
    (hworth : openingK ≤ desiredA * desiredB) :
    Openable env a b w desiredA desiredB ↔
      openingK ≤ ((deposited env a b w desiredA desiredB).1 + surplus env a b w a) *
        ((deposited env a b w desiredA desiredB).2 + surplus env a b w b) := by
  constructor
  · rintro (h0 | ⟨-, -, -, h⟩)
    · have hall : deposited env a b w desiredA desiredB = (desiredA, desiredB) := if_pos h0
      rw [hall]
      exact hworth.trans (Nat.mul_le_mul (Nat.le_add_right _ _) (Nat.le_add_right _ _))
    · exact h
  · intro h
    rcases hq with h0 | ⟨hA, hB, hlt⟩
    · exact .inl h0
    · exact .inr ⟨hA, hB, hlt, h⟩

theorem first_deposit_iff (hs : Site env a b)
    (hp : Sound (pool env a b) (min a b) (max a b) w p)
    (h0 : (w.token (pool env a b)).totalSupply = 0) (hget : w.factory.getPair a b ≠ 0)
    (hd : Deposit env a b w sender desiredA desiredB deadline) :
    Opens env a b w sender desiredA desiredB dst deadline ↔
      Openable env a b w desiredA desiredB := by
  have hpair : withPair env w a b = .ok w := if_neg hget
  have hres : getReserves env w a b = .ok (recorded env a b w a, recorded env a b w b) := by
    rw [recorded_eq hp.pair, recorded_eq hp.pair]
    exact getReserves_pool hs.ne hs.nonzero hp.pair hp.token0
  have hens : ensure w deadline = .ok () := require_of hd.in_time _
  have hfor : pairFor env a b = .ok (pool env a b) := pairFor_eq_ok.mpr ⟨hs.ne, hs.nonzero, rfl⟩
  have hpos : 0 < desiredA * desiredB := lt_of_lt_of_le (by decide) hd.worth
  by_cases hq : Quotable (recorded env a b w a) (recorded env a b w b) desiredA
  · have hamounts := addLiquidityAmounts_matched hpair hres (Nat.pos_of_mul_pos_right hpos)
      (Nat.pos_of_mul_pos_left hpos) hq
    obtain ⟨hleA, hleB⟩ := matched_le desiredB hq
    obtain ⟨w₁, w₂, hokA, hokB, hp₂, hlp, hbA, hbB⟩ := deposit_paid hs hp hd.sender_ne
      (hleA.trans hd.heldA) (hleB.trans hd.heldB) (hleA.trans hd.approvedA)
      (hleB.trans hd.approvedB)
    rw [openable_of_quotable hq hd.worth]
    refine Iff.trans ?_ (first_mint_iff dst hs hp hp₂ (hlp ▸ h0) hbA hbB hd.fitsA hd.fitsB)
    unfold Opens addLiquidity
    simp only [hens, ok_bind, hamounts, hfor, hokA, hokB, bind_eq_ok, pure_eq_ok, Except.ok.injEq,
      Prod.mk.injEq]
    constructor
    · rintro ⟨x, y, L, w', ⟨⟨L', w₃⟩, hm, ⟨-, -, rfl⟩, rfl⟩, hL⟩
      exact ⟨L', w₃, hm, hL⟩
    · rintro ⟨L, w', hm, hL⟩
      exact ⟨_, _, L, w', ⟨⟨L, w'⟩, hm, ⟨rfl, rfl, rfl⟩, rfl⟩, hL⟩
  · obtain ⟨e, he⟩ := addLiquidityAmounts_unquotable desiredB hpair hres hq
    constructor
    · rintro ⟨x, y, L, w', hok, -⟩
      rw [addLiquidity, hens, ok_bind, he] at hok
      cases hok
    · rintro (h | ⟨hA, hB, hlt, -⟩)
      · exact (hq (.inl h)).elim
      · exact (hq (.inr ⟨hA, hB, hlt⟩)).elim

/-- Where the pair is missing the router creates it, with nothing recorded. -/
theorem createPair_opens (hs : Site env a b) (hnone : w.pair (pool env a b) = none)
    (hab : w.factory.getPair a b = 0) (hba : w.factory.getPair b a = 0) :
    ∃ w₁, ArkSwapFactory.createPair env w a b = .ok (pool env a b, w₁) ∧
      w₁.timestamp = w.timestamp ∧ w₁.factory.getPair a b ≠ 0 ∧
      (∀ t, t ≠ pool env a b → w₁.token t = w.token t) ∧
      ∀ t, recorded env a b w₁ t = 0 := by
  have hget : w.factory.getPair (min a b) (max a b) = 0 :=
    sorted_pair (P := fun x y => w.factory.getPair x y = 0) hab hba
  obtain ⟨w₁, hc⟩ := createPair_free hs.code hs.ne hs.nonzero
    ⟨hget, hnone, hs.deployed.pool_ne, hs.factory_ne, hs.router_ne, hs.WETH_ne⟩
  obtain ⟨-, -, htok, hpair, htime, hab', -⟩ := Prior.createPair_deploys hs.ne hs.code hc
  refine ⟨w₁, hc, htime, hab' ▸ hs.deployed.pool_ne, fun t ht => ?_, fun t => ?_⟩
  · rw [htok, World.deploy, World.setPair_token, World.setToken_token_of_ne ht]
  · have hinit : w₁.pair (pool env a b) = some (.initial (min a b) (max a b)) := by
      rw [hpair, World.deploy, World.setPair_pair]
    rw [recorded_eq hinit, reserveOf]
    exact ite_self 0

theorem Deposit.created (hd : Deposit env a b w sender desiredA desiredB deadline)
    (hs : Site env a b) (htime : w₁.timestamp = w.timestamp)
    (hkeep : ∀ t, t ≠ pool env a b → w₁.token t = w.token t)
    (hrec : ∀ t, recorded env a b w t = 0) (hrec₁ : ∀ t, recorded env a b w₁ t = 0) :
    Deposit env a b w₁ sender desiredA desiredB deadline := by
  obtain ⟨hna, hnb⟩ := of_sorted (P := fun t => t ≠ pool env a b) hs.deployed.token0_ne
    hs.deployed.token1_ne
  have ha := hkeep a hna
  have hb := hkeep b hnb
  have hdep : deposited env a b w₁ desiredA desiredB = deposited env a b w desiredA desiredB := by
    rw [deposited, deposited, hrec, hrec, hrec₁, hrec₁]
  refine ⟨hd.worth, htime ▸ hd.in_time, hd.sender_ne, ?_, ?_, ?_, ?_, ?_, ?_⟩
  · rw [World.balanceOf, ha]
    exact hd.heldA
  · rw [World.balanceOf, hb]
    exact hd.heldB
  · rw [ha]
    exact hd.approvedA
  · rw [hb]
    exact hd.approvedB
  · rw [World.balanceOf, ha, hdep]
    exact hd.fitsA
  · rw [World.balanceOf, hb, hdep]
    exact hd.fitsB

/-- Whatever was done to a pair without shares, a deposit opens it exactly where
it can be matched and is then worth a share. -/
theorem opening_iff (hs : Site env a b) (h : Unopened env a b w)
    (steps : List (Nat × Prior (pool env a b))) (ts : Nat)
    (hd : Deposit env a b { Prior.run env a b w steps with timestamp := ts } sender desiredA
      desiredB deadline) :
    Opens env a b { Prior.run env a b w steps with timestamp := ts } sender desiredA desiredB dst
        deadline ↔
      Openable env a b { Prior.run env a b w steps with timestamp := ts } desiredA desiredB := by
  generalize hw : ({ Prior.run env a b w steps with timestamp := ts } : World) = v at *
  have hv : Unopened env a b v := hw ▸ (h.run hs steps).at_time ts
  cases hv with
  | present p hp h0 hab _ => exact first_deposit_iff hs hp h0 hab hd
  | absent hnone hab hba hc₀ hc₁ =>
    obtain ⟨v₁, hc, htime, hab₁, hkeep, hrec₁⟩ := createPair_opens hs hnone hab hba
    have hrec : ∀ t, recorded env a b v t = 0 := fun t => by
      rw [recorded, hnone]
      rfl
    have hopens : Opens env a b v₁ sender desiredA desiredB dst deadline := by
      cases (Unopened.absent hnone hab hba hc₀ hc₁).createPair hs hc with
      | absent _ hzero => exact (hab₁ hzero).elim
      | present p hp h0 =>
        exact (first_deposit_iff hs hp h0 hab₁ (hd.created hs htime hkeep hrec hrec₁)).mpr
          (.inl ⟨hrec₁ a, hrec₁ b⟩)
    have hpair : withPair env v a b = .ok v₁ := by
      rw [withPair, if_pos hab, hc]
      rfl
    have hpair₁ : withPair env v₁ a b = .ok v₁ := if_neg hab₁
    refine iff_of_true ?_ (.inl ⟨hrec a, hrec b⟩)
    unfold Opens addLiquidity addLiquidityAmounts ensure at hopens ⊢
    simp only [hpair₁, htime] at hopens
    simp only [hpair]
    exact hopens

end Deposits

/-- Account 7 holds everything and lets the router spend it. -/
def unopenedWorld : World :=
  { freshWorld with
    token := fun _ => heldToken.approve 7 2 10000
    pair := fun _ => none }

theorem codedEnv_site : Site codedEnv 4 5 where
  ne := by decide
  nonzero := by decide
  code := rfl
  deployed := by
    refine ⟨?_, ?_, ?_, ?_, fun _ _ _ => rfl, fun _ _ _ => rfl⟩
    all_goals decide +kernel
  factory_ne := by decide +kernel
  router_ne := by decide +kernel
  WETH_ne := by decide +kernel

theorem unopenedWorld_unopened : Unopened codedEnv 4 5 unopenedWorld :=
  .absent rfl rfl rfl heldToken_conserved heldToken_conserved

/-- Tokens sent to the pair before and after its creation. -/
def lateDonation : List (Nat × Prior (pool codedEnv 4 5)) :=
  [(1, .donate ⟨4, by decide +kernel⟩ ⟨7, by decide +kernel⟩ 1), (1, .createPair true),
    (2, .donate ⟨5, by decide +kernel⟩ ⟨7, by decide +kernel⟩ 30)]

theorem lateDonation_deposit : Deposit codedEnv 4 5
    { Prior.run codedEnv 4 5 unopenedWorld lateDonation with timestamp := 2 } 7 2000 2000 2 where
  worth := by decide
  in_time := by decide
  sender_ne := by decide +kernel
  heldA := by decide +kernel
  heldB := by decide +kernel
  approvedA := by decide +kernel
  approvedB := by decide +kernel
  fitsA := by decide +kernel
  fitsB := by decide +kernel

theorem lateDonation_opens : Opens codedEnv 4 5
    { Prior.run codedEnv 4 5 unopenedWorld lateDonation with timestamp := 2 } 7 2000 2000 7 2 :=
  (opening_iff codedEnv_site unopenedWorld_unopened lateDonation 2 lateDonation_deposit).mpr
    (.inl ⟨by decide +kernel, by decide +kernel⟩)

/-- One unit of one token, made a reserve. -/
def dustSync : List (Nat × Prior (pool codedEnv 4 5)) :=
  [(1, .donate ⟨4, by decide +kernel⟩ ⟨7, by decide +kernel⟩ 1), (1, .createPair false), (1, .sync)]

theorem dustSync_deposit : Deposit codedEnv 4 5
    { Prior.run codedEnv 4 5 unopenedWorld dustSync with timestamp := 1 } 7 2000 2000 1 where
  worth := by decide
  in_time := by decide
  sender_ne := by decide +kernel
  heldA := by decide +kernel
  heldB := by decide +kernel
  approvedA := by decide +kernel
  approvedB := by decide +kernel
  fitsA := by decide +kernel
  fitsB := by decide +kernel

/-- The router takes the pair for a funded one and asks for a quote. -/
theorem dustSync_blocks :
    Site codedEnv 4 5 ∧ Unopened codedEnv 4 5 unopenedWorld ∧
      Deposit codedEnv 4 5 { Prior.run codedEnv 4 5 unopenedWorld dustSync with timestamp := 1 } 7
        2000 2000 1 ∧
      (addLiquidity codedEnv { Prior.run codedEnv 4 5 unopenedWorld dustSync with timestamp := 1 } 7
        4 5 2000 2000 0 0 7 1).map Prod.fst = .error "ArkSwapLibrary: INSUFFICIENT_LIQUIDITY" ∧
      ¬Opens codedEnv 4 5 { Prior.run codedEnv 4 5 unopenedWorld dustSync with timestamp := 1 } 7
        2000 2000 7 1 := by
  have herr : (addLiquidity codedEnv
      { Prior.run codedEnv 4 5 unopenedWorld dustSync with timestamp := 1 } 7 4 5 2000 2000 0 0 7
      1).map Prod.fst = .error "ArkSwapLibrary: INSUFFICIENT_LIQUIDITY" := by decide +kernel
  refine ⟨codedEnv_site, unopenedWorld_unopened, dustSync_deposit, herr, ?_⟩
  rintro ⟨x, y, L, w', hok, -⟩
  rw [hok] at herr
  cases herr

end ArkSwap
