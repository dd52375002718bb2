import ArkSwap.PairCalls
import ArkSwap.Router

/-! What token transfers and the calls of a pair move to or from an account
that is neither the pair nor the recipient of its fee. -/

namespace ArkSwap

open Checked ArkSwapPair

/-- Pairs of the later world were pairs of the same tokens before. -/
def SamePairs (w w' : World) : Prop :=
  ∀ q p', w'.pair q = some p' → ∃ p, w.pair q = some p ∧ p'.token0 = p.token0 ∧
    p'.token1 = p.token1

/-- Nothing changes for account `r` but what it receives of each token. -/
structure Flow (r : Address) (w w' : World) (got : Address → Nat) : Prop where
  native : w'.native = w.native
  balance : ∀ t, w'.balanceOf t r = w.balanceOf t r + got t
  feeTo : w'.factory.feeTo = w.factory.feeTo
  pairs : SamePairs w w'

namespace Flow

variable {r : Address} {w w' w'' : World} {got got' : Address → Nat}

theorem trans (h : Flow r w w' got) (h' : Flow r w' w'' got') :
    Flow r w w'' (fun t => got t + got' t) where
  native := h'.native.trans h.native
  balance t := by rw [h'.balance, h.balance, Nat.add_assoc]
  feeTo := h'.feeTo.trans h.feeTo
  pairs q p'' hq := by
    obtain ⟨p', hp', h₀', h₁'⟩ := h'.pairs q p'' hq
    obtain ⟨p, hp, h₀, h₁⟩ := h.pairs q p' hp'
    exact ⟨p, hp, h₀'.trans h₀, h₁'.trans h₁⟩

theorem congr (h : Flow r w w' got) (he : ∀ t, got t = got' t) : Flow r w w' got' :=
  ⟨h.native, fun t => by rw [h.balance, he], h.feeTo, h.pairs⟩

theorem still_trans (h : Flow r w w' fun _ => 0) (h' : Flow r w' w'' got) :
    Flow r w w'' got := (h.trans h').congr fun _ => Nat.zero_add _

theorem of_token (hp : w'.pair = w.pair) (hn : w'.native = w.native)
    (hf : w'.factory = w.factory) (hb : ∀ t, w'.balanceOf t r = w.balanceOf t r + got t) :
    Flow r w w' got :=
  ⟨hn, hb, by rw [hf], fun q p' hq => ⟨p', hp ▸ hq, rfl, rfl⟩⟩

theorem setPair {self : Address} {p q : ArkSwapPair} (hp : w.pair self = some p)
    (h₀ : q.token0 = p.token0) (h₁ : q.token1 = p.token1) :
    Flow r w (w.setPair self q) fun _ => 0 where
  native := rfl
  balance _ := rfl
  feeTo := rfl
  pairs a p' ha := by
    by_cases hs : a = self
    · subst hs
      rw [World.setPair_pair] at ha
      obtain rfl := Option.some.inj ha
      exact ⟨p, hp, h₀, h₁⟩
    · rw [World.setPair_pair_of_ne hs] at ha
      exact ⟨p', ha, rfl, rfl⟩

theorem emit (e : Event) : Flow r w (w.emit e) fun _ => 0 :=
  ⟨rfl, fun _ => rfl, rfl, fun _ p' h => ⟨p', h, rfl, rfl⟩⟩

theorem setToken {a : Address} {t : ArkSwapERC20} (h : t.balanceOf r = (w.token a).balanceOf r) :
    Flow r w (w.setToken a t) fun _ => 0 := by
  refine of_token rfl rfl rfl (fun b => ?_)
  by_cases hb : b = a
  · subst hb
    rw [World.balanceOf_setToken, Nat.add_zero]
    exact h
  · rw [World.balanceOf_setToken_of_ne _ hb, Nat.add_zero]

end Flow

/-- What a transfer to `dst` brings account `r`. -/
def arrives (env : Env) (r token src dst : Address) (value : Nat) (t : Address) : Nat :=
  if t = token ∧ dst = r then value - env.burned token src dst value else 0

theorem arrives_of_ne {env : Env} {r token src dst : Address} (value : Nat) (h : dst ≠ r)
    (t : Address) : arrives env r token src dst value t = 0 := if_neg fun he => h he.2

@[simp] theorem arrives_zero (env : Env) (r token src dst t : Address) :
    arrives env r token src dst 0 t = 0 := by
  unfold arrives
  split <;> omega

section Transfers

variable {env : Env} {r token src dst : Address} {w w' : World} {value : Nat}

theorem transfer_src (h : w.transfer env token r dst value = .ok w') (hd : dst ≠ r) :
    value ≤ w.balanceOf token r ∧ w'.balanceOf token r = w.balanceOf token r - value ∧
      (∀ t, t ≠ token → w'.balanceOf t r = w.balanceOf t r) ∧ w'.native = w.native ∧
      w'.factory = w.factory ∧ w'.pair = w.pair := by
  simp only [World.transfer, bind_eq_ok, pure_eq_ok, Except.ok.injEq] at h
  obtain ⟨t₁, h₁, t₂, h₂, rfl⟩ := h
  obtain ⟨hb, -, rfl⟩ := ArkSwapERC20.burn_eq_ok.mp h₁
  obtain ⟨hm, -, rfl⟩ := ArkSwapERC20.transfer_eq_ok.mp h₂
  have hle := env.burned_le token r dst value
  have hbal : w.balanceOf token r = (w.token token).balanceOf r := rfl
  simp only [Ledger.debit_self] at hm
  refine ⟨by omega, ?_, fun t ht => World.balanceOf_setToken_of_ne _ ht, rfl, rfl, rfl⟩
  rw [World.balanceOf_setToken]
  have hs := Ledger.move_src (f := Ledger.debit (w.token token).balanceOf r
    (env.burned token r dst value)) (value - env.burned token r dst value) (Ne.symm hd)
  rw [Ledger.debit_self] at hs
  refine hs.trans ?_
  omega

theorem transfer_pair (h : w.transfer env token src dst value = .ok w') : w'.pair = w.pair := by
  simp only [World.transfer, bind_eq_ok, pure_eq_ok, Except.ok.injEq] at h
  obtain ⟨-, -, -, -, rfl⟩ := h
  rfl

theorem transfer_flow (h : w.transfer env token src dst value = .ok w') (hs : src ≠ r) :
    Flow r w w' (arrives env r token src dst value) := by
  simp only [World.transfer, bind_eq_ok, pure_eq_ok, Except.ok.injEq] at h
  obtain ⟨t₁, h₁, t₂, h₂, rfl⟩ := h
  obtain ⟨-, -, rfl⟩ := ArkSwapERC20.burn_eq_ok.mp h₁
  obtain ⟨-, -, rfl⟩ := ArkSwapERC20.transfer_eq_ok.mp h₂
  refine Flow.of_token rfl rfl rfl (fun t => ?_)
  by_cases ht : t = token
  · subst ht
    rw [World.balanceOf_setToken, World.balanceOf]
    by_cases hd : dst = r
    · subst hd
      rw [arrives, if_pos ⟨rfl, rfl⟩]
      exact (Ledger.move_dst _ (Ne.symm hs)).trans
        (congrArg (· + _) (Ledger.debit_of_ne _ _ (Ne.symm hs)))
    · rw [arrives_of_ne _ hd, Nat.add_zero]
      refine (Ledger.move_of_ne _ (Ne.symm hs) (Ne.symm hd)).trans ?_
      exact Ledger.debit_of_ne _ _ (Ne.symm hs)
  · rw [World.balanceOf_setToken_of_ne _ ht, arrives, if_neg fun he => ht he.1, Nat.add_zero]

theorem spendAllowance_balance {spender : Address} {t : ArkSwapERC20}
    (h : w.spendAllowance env token spender src value = .ok t) :
    t.balanceOf = (w.token token).balanceOf := by
  rw [World.spendAllowance, ite_eq_ok] at h
  rcases h with ⟨-, h⟩ | ⟨-, h⟩
  · rw [Except.ok.inj h]
  · exact (ArkSwapERC20.spendAllowance_ok h).2.1

theorem transferFrom_flow {spender : Address}
    (h : w.transferFrom env token spender src dst value = .ok w') (hs : src ≠ r) :
    Flow r w w' (arrives env r token src dst value) := by
  rw [World.transferFrom, bind_eq_ok] at h
  obtain ⟨t, ht, h⟩ := h
  exact (Flow.setToken (by rw [spendAllowance_balance ht])).still_trans (transfer_flow h hs)

theorem sendOut_flow (h : sendOut env w token src dst value = .ok w') (hs : src ≠ r) :
    Flow r w w' (arrives env r token src dst value) := by
  rw [sendOut, ite_eq_ok, safeTransfer_eq_ok] at h
  rcases h with ⟨-, h⟩ | ⟨h0, h⟩
  · exact transfer_flow h hs
  · obtain rfl := Except.ok.inj h
    rw [Nat.eq_zero_of_not_pos h0]
    exact Flow.of_token rfl rfl rfl (fun t => by rw [arrives_zero, Nat.add_zero])

end Transfers

section Calls

variable {env : Env} {r self sender dst : Address} {w w' : World} {p : ArkSwapPair}

theorem issued_balance_of_ne {lp : ArkSwapERC20} {a : Address} (v : Nat) (h : r ≠ a) :
    (issued lp a v).balanceOf r = lp.balanceOf r := Ledger.credit_of_ne _ _ h

theorem mint_ledger {lp lp' : ArkSwapERC20} {a : Address} {v : Nat} (h : lp.mint a v = .ok lp') :
    lp' = issued lp a v := (ArkSwapERC20.mint_eq_ok.mp h).2.2

/-- Whatever the fee comes to, it goes to its recipient. -/
theorem mintFee_ledger {q : ArkSwapPair} {lp lp' : ArkSwapERC20} {feeTo : Address} {r₀ r₁ : Nat}
    {feeOn : Bool} (h : mintFee p lp feeTo r₀ r₁ = .ok (feeOn, q, lp')) :
    q.token0 = p.token0 ∧ q.token1 = p.token1 ∧ ∃ v, lp' = issued lp feeTo v := by
  simp only [mintFee, ite_eq_ok, bind_eq_ok, pure_eq_ok, Except.ok.injEq, Prod.mk.injEq] at h
  rcases h with ⟨-, ⟨-, k, -, K, -, k', -, ⟨-, d, -, n, -, m, -, s, -, L, -, hL⟩ |
    ⟨-, rfl, rfl, rfl⟩⟩ | ⟨-, rfl, rfl, rfl⟩⟩ | ⟨-, ⟨-, rfl, rfl, rfl⟩ | ⟨-, rfl, rfl, rfl⟩⟩
  · rcases hL with ⟨-, lp₁, hm, rfl, rfl, rfl⟩ | ⟨-, rfl, rfl, rfl⟩
    · exact ⟨rfl, rfl, L, mint_ledger hm⟩
    · exact ⟨rfl, rfl, 0, (issued_zero _ _).symm⟩
  · exact ⟨rfl, rfl, 0, (issued_zero _ _).symm⟩
  · exact ⟨rfl, rfl, 0, (issued_zero _ _).symm⟩
  · exact ⟨rfl, rfl, 0, (issued_zero _ _).symm⟩
  · exact ⟨rfl, rfl, 0, (issued_zero _ _).symm⟩

theorem mintLiquidity_ledger {lp lp' : ArkSwapERC20} {a₀ a₁ r₀ r₁ L : Nat}
    (h : mintLiquidity lp a₀ a₁ r₀ r₁ = .ok (L, lp')) : ∃ v, lp' = issued lp 0 v := by
  rcases mintLiquidity_ok h with ⟨-, -, -, rfl⟩ | ⟨-, -, -, -, -, rfl⟩
  · exact ⟨_, rfl⟩
  · exact ⟨0, (issued_zero _ _).symm⟩

/-- A call under the lock does to others what its body does. -/
theorem lock_flow {α : Type} (got : ArkSwapPair → Address → Nat) {a : α}
    {body : World → Except String (α × World)} (h : lock w self body = .ok (a, w'))
    (hbody : ∀ p w₁, w.pair self = some p →
      body (w.setPair self { p with unlocked := 0 }) = .ok (a, w₁) →
      Flow r (w.setPair self { p with unlocked := 0 }) w₁ (got p)) :
    ∃ p, w.pair self = some p ∧ Flow r w w' (got p) := by
  obtain ⟨p, w₁, q, hp, -, hb, hq, rfl⟩ := lock_eq_ok.mp h
  have hin : Flow r w (w.setPair self { p with unlocked := 0 }) fun _ => 0 :=
    Flow.setPair hp rfl rfl
  have hout : Flow r w₁ (w₁.setPair self { q with unlocked := 1 }) fun _ => 0 :=
    Flow.setPair hq rfl rfl
  exact ⟨p, hp, (hin.still_trans ((hbody p w₁ hp hb).trans hout)).congr fun _ => Nat.add_zero _⟩

/-- Storing the updated pair and reporting it brings nobody anything. -/
theorem settle_flow {q q' q'' : ArkSwapPair} {timestamp b₀ b₁ r₀ r₁ : Nat} {feeOn : Bool}
    {e e' : Event} (hp : w.pair self = some p) (h₀ : q.token0 = p.token0)
    (h₁ : q.token1 = p.token1) (hupd : q.update timestamp b₀ b₁ r₀ r₁ = .ok q')
    (hrec : recordK feeOn q' = .ok q'') :
    Flow r w (((w.setPair self q'').emit e).emit e') fun _ => 0 := by
  obtain ⟨-, -, -, -, e₀, e₁, -, -⟩ := update_ok hupd
  obtain ⟨-, -, e₀', e₁', -, -⟩ := recordK_ok hrec
  exact (Flow.setPair hp (e₀'.trans (e₀.trans h₀)) (e₁'.trans (e₁.trans h₁))).still_trans
    ((Flow.emit e).still_trans (Flow.emit e'))

theorem mint_flow {L : Nat} (h : ArkSwapPair.mint w self sender dst = .ok (L, w'))
    (h0 : r ≠ 0) (hd : r ≠ dst) (hf : r ≠ w.factory.feeTo) : Flow r w w' fun _ => 0 := by
  suffices hs : ∃ p, w.pair self = some p ∧ Flow r w w' fun _ => 0 by
    obtain ⟨-, -, hflow⟩ := hs
    exact hflow
  refine lock_flow (fun _ _ => 0) h (fun p w₁ hp hb => ?_)
  simp only [bind_eq_ok, World.storage_eq_ok, World.setPair_pair, World.setPair_token,
    World.setPair_factory, require_eq_ok, pure_eq_ok, Except.ok.injEq, Prod.mk.injEq] at hb
  obtain ⟨_, hp₀, hb⟩ := hb
  cases hp₀
  obtain ⟨_, -, _, -, ⟨feeOn, q₁, lp₁⟩, hfee, ⟨L', lp₂⟩, hL, -, -, lp₃, hm, q₂, hupd, q₃, hrec, -,
    rfl⟩ := hb
  obtain ⟨e₀, e₁, v, rfl⟩ := mintFee_ledger hfee
  obtain ⟨v', rfl⟩ := mintLiquidity_ledger hL
  obtain rfl := mint_ledger hm
  refine (Flow.setToken ?_).still_trans
    (settle_flow (p := { p with unlocked := 0 }) (by simp) e₀ e₁ hupd hrec)
  rw [issued_balance_of_ne _ hd, issued_balance_of_ne _ h0, issued_balance_of_ne _ hf]
  rfl

/-- Both outputs of a pair, as account `r` receives them. -/
def arriveBoth (env : Env) (r self dst : Address) (amount0 amount1 : Nat) (p : ArkSwapPair)
    (t : Address) : Nat :=
  arrives env r p.token0 self dst amount0 t + arrives env r p.token1 self dst amount1 t

theorem burn_flow {a₀ a₁ : Nat} (h : ArkSwapPair.burn env w self sender dst = .ok ((a₀, a₁), w'))
    (hs : r ≠ self) (hf : r ≠ w.factory.feeTo) :
    ∃ p, w.pair self = some p ∧ Flow r w w' (arriveBoth env r self dst a₀ a₁ p) := by
  refine lock_flow (arriveBoth env r self dst a₀ a₁) h (fun p w₁ hp hb => ?_)
  simp only [bind_eq_ok, World.storage_eq_ok, World.setPair_pair, World.setPair_token,
    World.setPair_factory, safeTransfer_eq_ok, require_eq_ok, pure_eq_ok, Except.ok.injEq,
    Prod.mk.injEq] at hb
  obtain ⟨_, hp₀, hb⟩ := hb
  cases hp₀
  obtain ⟨⟨feeOn, q₁, lp₁⟩, hfee, _, -, _, -, _, -, _, -, -, -, lp₂, hburn, w₃, ht₀, w₄, ht₁, q₂,
    hupd, q₃, hrec, ⟨rfl, rfl⟩, rfl⟩ := hb
  obtain ⟨e₀, e₁, v, rfl⟩ := mintFee_ledger hfee
  obtain ⟨-, -, rfl⟩ := ArkSwapERC20.burn_eq_ok.mp hburn
  have hpair : w₄.pair self = some q₁ := by
    rw [transfer_pair ht₁, transfer_pair ht₀, World.setPair_pair]
  have hpaid := (transfer_flow ht₀ hs.symm).trans (transfer_flow ht₁ hs.symm)
  refine (Flow.setToken ?_).still_trans
    ((Flow.setPair (p := { p with unlocked := 0 }) (by simp) e₀ e₁).still_trans
      ((hpaid.trans (settle_flow hpair rfl rfl hupd hrec)).congr fun _ => Nat.add_zero _))
  exact (Ledger.debit_of_ne _ _ hs).trans (issued_balance_of_ne v hf)

theorem swap_flow {o₀ o₁ : Nat}
    (h : ArkSwapPair.swap env w self sender o₀ o₁ dst none = .ok ((), w')) (hs : r ≠ self) :
    ∃ p, w.pair self = some p ∧ Flow r w w' (arriveBoth env r self dst o₀ o₁ p) := by
  refine lock_flow (arriveBoth env r self dst o₀ o₁) h (fun p w₁ hp hb => ?_)
  simp only [bind_eq_ok, World.storage_eq_ok, World.setPair_pair, require_eq_ok, pure_eq_ok,
    Except.ok.injEq, Prod.mk.injEq] at hb
  obtain ⟨-, -, _, hp₀, hb⟩ := hb
  cases hp₀
  obtain ⟨-, -, -, -, w₂, ht₀, w₃, ht₁, w₄, hcall, -, -, -, -, q₁, hq₁, q₂, hupd, -, rfl⟩ := hb
  obtain rfl : w₃ = w₄ := Except.ok.inj hcall
  have hpaid := (sendOut_flow ht₀ hs.symm).trans (sendOut_flow ht₁ hs.symm)
  have hrec : recordK false q₂ = .ok q₂ := rfl
  exact (hpaid.trans (settle_flow hq₁ rfl rfl hupd hrec)).congr fun _ => Nat.add_zero _

end Calls

end ArkSwap
