import ArkSwap.Lib.ConstantProduct
import ArkSwap.Pair

/-! What each call of the pair does when it succeeds. -/

namespace ArkSwap

open Checked

/-- A token whose transfers move exactly their amount. -/
def Standard (env : Env) (token : Address) : Prop :=
  ∀ src dst value, env.burned token src dst value = 0

namespace World

@[simp] theorem setToken_token (w : World) (a : Address) (t : ArkSwapERC20) :
    (w.setToken a t).token a = t := by simp [setToken]

@[simp] theorem setToken_setToken (w : World) (a : Address) (t u : ArkSwapERC20) :
    (w.setToken a t).setToken a u = w.setToken a u := by simp [setToken]

theorem setToken_token_of_ne {w : World} {a b : Address} {t : ArkSwapERC20} (h : b ≠ a) :
    (w.setToken a t).token b = w.token b := by simp [setToken, h]

@[simp] theorem setToken_pair (w : World) (a : Address) (t : ArkSwapERC20) :
    (w.setToken a t).pair = w.pair := rfl

@[simp] theorem setToken_factory (w : World) (a : Address) (t : ArkSwapERC20) :
    (w.setToken a t).factory = w.factory := rfl

@[simp] theorem setToken_timestamp (w : World) (a : Address) (t : ArkSwapERC20) :
    (w.setToken a t).timestamp = w.timestamp := rfl

@[simp] theorem setToken_native (w : World) (a : Address) (t : ArkSwapERC20) :
    (w.setToken a t).native = w.native := rfl

@[simp] theorem setPair_pair (w : World) (a : Address) (p : ArkSwapPair) :
    (w.setPair a p).pair a = some p := by simp [setPair]

theorem setPair_pair_of_ne {w : World} {a b : Address} {p : ArkSwapPair} (h : b ≠ a) :
    (w.setPair a p).pair b = w.pair b := by simp [setPair, h]

@[simp] theorem setPair_token (w : World) (a : Address) (p : ArkSwapPair) :
    (w.setPair a p).token = w.token := rfl

@[simp] theorem setPair_factory (w : World) (a : Address) (p : ArkSwapPair) :
    (w.setPair a p).factory = w.factory := rfl

@[simp] theorem setPair_timestamp (w : World) (a : Address) (p : ArkSwapPair) :
    (w.setPair a p).timestamp = w.timestamp := rfl

@[simp] theorem setPair_native (w : World) (a : Address) (p : ArkSwapPair) :
    (w.setPair a p).native = w.native := rfl

@[simp] theorem emit_token (w : World) (e : Event) : (w.emit e).token = w.token := rfl

@[simp] theorem emit_pair (w : World) (e : Event) : (w.emit e).pair = w.pair := rfl

@[simp] theorem emit_factory (w : World) (e : Event) : (w.emit e).factory = w.factory := rfl

@[simp] theorem emit_timestamp (w : World) (e : Event) : (w.emit e).timestamp = w.timestamp := rfl

@[simp] theorem emit_native (w : World) (e : Event) : (w.emit e).native = w.native := rfl

@[simp] theorem balanceOf_setPair (w : World) (a : Address) (p : ArkSwapPair) (t b : Address) :
    (w.setPair a p).balanceOf t b = w.balanceOf t b := rfl

@[simp] theorem balanceOf_emit (w : World) (e : Event) (t b : Address) :
    (w.emit e).balanceOf t b = w.balanceOf t b := rfl

@[simp] theorem balanceOf_setToken (w : World) (a : Address) (t : ArkSwapERC20) (b : Address) :
    (w.setToken a t).balanceOf a b = t.balanceOf b := by simp [balanceOf]

theorem balanceOf_setToken_of_ne {w : World} {a c : Address} {t : ArkSwapERC20} (b : Address)
    (h : c ≠ a) : (w.setToken a t).balanceOf c b = w.balanceOf c b := by
  simp [balanceOf, setToken_token_of_ne h]

@[simp] theorem storage_eq_ok {w : World} {a : Address} {p : ArkSwapPair} :
    w.storage a = .ok p ↔ w.pair a = some p := by
  cases h : w.pair a <;> simp [storage, h]

/-- The world after a token moved `value` between two accounts. -/
def moved (w : World) (token src dst : Address) (value : Nat) : World :=
  w.setToken token { w.token token with
    balanceOf := Ledger.move (w.token token).balanceOf src dst value }

@[simp] theorem moved_pair (w : World) (t a b : Address) (v : Nat) :
    (w.moved t a b v).pair = w.pair := rfl

@[simp] theorem moved_factory (w : World) (t a b : Address) (v : Nat) :
    (w.moved t a b v).factory = w.factory := rfl

@[simp] theorem moved_timestamp (w : World) (t a b : Address) (v : Nat) :
    (w.moved t a b v).timestamp = w.timestamp := rfl

@[simp] theorem moved_native (w : World) (t a b : Address) (v : Nat) :
    (w.moved t a b v).native = w.native := rfl

theorem moved_token_of_ne {w : World} {t c : Address} (a b : Address) (v : Nat) (h : c ≠ t) :
    (w.moved t a b v).token c = w.token c := setToken_token_of_ne h

theorem balanceOf_moved_of_ne {w : World} {t c : Address} (a b x : Address) (v : Nat)
    (h : c ≠ t) : (w.moved t a b v).balanceOf c x = w.balanceOf c x :=
  balanceOf_setToken_of_ne x h

@[simp] theorem moved_token (w : World) (t a b : Address) (v : Nat) :
    (w.moved t a b v).token t = { w.token t with
      balanceOf := Ledger.move (w.token t).balanceOf a b v } := setToken_token _ _ _

@[simp] theorem moved_zero (w : World) (t a b : Address) : w.moved t a b 0 = w := by
  simp [moved, setToken]

theorem transfer_eq_ok {env : Env} {w w' : World} {token src dst : Address} {value : Nat}
    (hs : Standard env token) :
    w.transfer env token src dst value = .ok w' ↔
      value ≤ w.balanceOf token src ∧
      Ledger.debit (w.token token).balanceOf src value dst + value < Uint.size ∧
      w' = w.moved token src dst value := by
  have hb : (w.token token).burn src 0 = .ok (w.token token) := by
    rw [ArkSwapERC20.burn_eq_ok]
    simp
  simp only [transfer, hs src dst value, hb, ok_bind, Nat.sub_zero, bind_eq_ok, pure_eq_ok,
    ArkSwapERC20.transfer_eq_ok, Except.ok.injEq, balanceOf, moved]
  constructor
  · rintro ⟨_, ⟨h, h', rfl⟩, rfl⟩
    exact ⟨h, h', rfl⟩
  · rintro ⟨h, h', rfl⟩
    exact ⟨_, ⟨h, h', rfl⟩, rfl⟩

end World

namespace ArkSwapPair

theorem lock_eq_ok {α : Type} {w w' : World} {self : Address} {a : α}
    {body : World → Except String (α × World)} :
    lock w self body = .ok (a, w') ↔ ∃ p w₁ q, w.pair self = some p ∧ p.unlocked = 1 ∧
      body (w.setPair self { p with unlocked := 0 }) = .ok (a, w₁) ∧ w₁.pair self = some q ∧
      w' = w₁.setPair self { q with unlocked := 1 } := by
  simp only [lock, bind_eq_ok, World.storage_eq_ok, require_eq_ok, pure_eq_ok, Except.ok.injEq,
    Prod.mk.injEq]
  constructor
  · rintro ⟨p, hp, -, hu, ⟨b, w₁⟩, hb, q, hq, rfl, rfl⟩
    exact ⟨p, w₁, q, hp, hu, hb, hq, rfl⟩
  · rintro ⟨p, w₁, q, hp, hu, hb, hq, rfl⟩
    exact ⟨p, hp, (), hu, (a, w₁), hb, q, hq, rfl, rfl⟩

theorem lock_open {α : Type} {w : World} {self : Address} {p : ArkSwapPair}
    (body : World → Except String (α × World)) (hp : w.pair self = some p)
    (hu : p.unlocked = 1) :
    lock w self body = body (w.setPair self { p with unlocked := 0 }) >>= fun r => do
      let q ← r.2.storage self
      return (r.1, r.2.setPair self { q with unlocked := 1 }) := by
  simp [lock, World.storage, hp, require, hu]

theorem lock_locked {α : Type} {w : World} {self : Address} {p : ArkSwapPair}
    (body : World → Except String (α × World)) (hp : w.pair self = some p)
    (hu : p.unlocked = 0) : ∃ e, lock w self body = .error e := by
  refine ⟨"ArkSwap: LOCKED", ?_⟩
  simp [lock, World.storage, hp, require, hu]

/-- Reserves become the balances; tokens, `kLast` and the lock stay. -/
theorem update_ok {p q : ArkSwapPair} {ts b₀ b₁ r₀ r₁ : Nat}
    (h : p.update ts b₀ b₁ r₀ r₁ = .ok q) :
    b₀ ≤ Uint.max112 ∧ b₁ ≤ Uint.max112 ∧ q.reserve0 = b₀ ∧ q.reserve1 = b₁ ∧
      q.token0 = p.token0 ∧ q.token1 = p.token1 ∧ q.kLast = p.kLast ∧
      q.unlocked = p.unlocked := by
  simp only [update, UQ112x112.uqdiv, bind_eq_ok, require_eq_ok, ite_eq_ok, Uint.div_eq_ok,
    pure_eq_ok, Except.ok.injEq] at h
  obtain ⟨-, ⟨h₀, h₁⟩, ⟨-, _, -, _, -, _, rfl, rfl⟩ | ⟨-, _, rfl, rfl⟩⟩ := h
  · exact ⟨h₀, h₁, rfl, rfl, rfl, rfl, rfl, rfl⟩
  · exact ⟨h₀, h₁, rfl, rfl, rfl, rfl, rfl, rfl⟩

theorem update_defined (p : ArkSwapPair) (ts r₀ r₁ : Nat) {b₀ b₁ : Nat}
    (h₀ : b₀ ≤ Uint.max112) (h₁ : b₁ ≤ Uint.max112) : ∃ q, p.update ts b₀ b₁ r₀ r₁ = .ok q := by
  have hr : ∀ e : String, require (b₀ ≤ Uint.max112 ∧ b₁ ≤ Uint.max112) e = .ok () :=
    fun e => require_of ⟨h₀, h₁⟩ e
  unfold update
  rw [hr, ok_bind]
  by_cases hc : Uint.sub32 (Uint.cast32 ts) p.blockTimestampLast > 0 ∧ r₀ ≠ 0 ∧ r₁ ≠ 0
  · rw [if_pos hc]
    simp only [UQ112x112.uqdiv, Uint.div, hc.2.1, hc.2.2, if_false]
    exact ⟨_, rfl⟩
  · rw [if_neg hc]
    exact ⟨_, rfl⟩

theorem safeTransfer_eq_ok {env : Env} {w w' : World} {token self dst : Address} {value : Nat} :
    safeTransfer env w token self dst value = .ok w' ↔
      w.transfer env token self dst value = .ok w' := orFail_eq_ok

theorem sendOut_ok {env : Env} {w w' : World} {token src dst : Address} {value : Nat}
    (hs : Standard env token) (h : sendOut env w token src dst value = .ok w') :
    value ≤ w.balanceOf token src ∧ w' = w.moved token src dst value := by
  rw [sendOut, ite_eq_ok, safeTransfer_eq_ok, World.transfer_eq_ok hs, Except.ok.injEq] at h
  rcases h with ⟨-, hle, -, rfl⟩ | ⟨hz, rfl⟩
  · exact ⟨hle, rfl⟩
  · rw [Nat.eq_zero_of_not_pos hz]
    exact ⟨Nat.zero_le _, (World.moved_zero _ _ _ _).symm⟩

theorem adjusted_eq_ok {b i a : Nat} :
    adjusted b i = .ok a ↔
      b * 1000 < Uint.size ∧ i * 3 < Uint.size ∧ i * 3 ≤ b * 1000 ∧ a = b * 1000 - i * 3 := by
  simp only [adjusted, bind_eq_ok, SafeMath.mul_eq_ok, SafeMath.sub_eq_ok]
  constructor
  · rintro ⟨_, ⟨hb, rfl⟩, _, ⟨hi, rfl⟩, hle, ha⟩
    exact ⟨hb, hi, hle, ha⟩
  · rintro ⟨hb, hi, hle, ha⟩
    exact ⟨_, ⟨hb, rfl⟩, _, ⟨hi, rfl⟩, hle, ha⟩

theorem requireK_ok {b₀ b₁ i₀ i₁ r₀ r₁ : Nat} {u : Unit}
    (h : requireK b₀ b₁ i₀ i₁ r₀ r₁ = .ok u) :
    ConstantProduct.Accepts 1000 3 (r₀ * r₁) b₀ i₀ b₁ i₁ := by
  simp only [requireK, bind_eq_ok, adjusted_eq_ok, SafeMath.mul_eq_ok, require_eq_ok] at h
  obtain ⟨x, ⟨-, -, -, hx⟩, y, ⟨-, -, -, hy⟩, z, ⟨-, hz⟩, m, ⟨-, hm⟩, k, ⟨-, hk⟩, hge⟩ := h
  rw [ConstantProduct.Accepts, ← hx, ← hy, ← hz, ← hm, ← hk]
  exact hge

theorem recordK_ok {feeOn : Bool} {p q : ArkSwapPair} (h : recordK feeOn p = .ok q) :
    q.reserve0 = p.reserve0 ∧ q.reserve1 = p.reserve1 ∧ q.token0 = p.token0 ∧
      q.token1 = p.token1 ∧ q.unlocked = p.unlocked ∧
      q.kLast = if feeOn then p.reserve0 * p.reserve1 else p.kLast := by
  cases feeOn with
  | false =>
    obtain rfl : p = q := by simpa [recordK] using h
    simp
  | true =>
    simp only [recordK, if_true, bind_eq_ok, SafeMath.mul_eq_ok, pure_eq_ok,
      Except.ok.injEq] at h
    obtain ⟨_, ⟨-, rfl⟩, rfl⟩ := h
    simp

/-- The shares `_mintFee` issues. -/
def protocolFee (kLast : Nat) (feeTo : Address) (supply r₀ r₁ : Nat) : Nat :=
  if feeTo = 0 ∨ kLast = 0 then 0
  else supply * (Nat.sqrt (r₀ * r₁) - Nat.sqrt kLast) /
    (Nat.sqrt (r₀ * r₁) * 5 + Nat.sqrt kLast)

@[simp] theorem protocolFee_off (kLast supply r₀ r₁ : Nat) :
    protocolFee kLast 0 supply r₀ r₁ = 0 := by simp [protocolFee]

/-- Shares issued to an account, as both the ledger and the supply record. -/
def issued (lp : ArkSwapERC20) (dst : Address) (value : Nat) : ArkSwapERC20 :=
  { lp with
    totalSupply := lp.totalSupply + value
    balanceOf := Ledger.credit lp.balanceOf dst value }

@[simp] theorem issued_zero (lp : ArkSwapERC20) (dst : Address) : issued lp dst 0 = lp := by
  simp [issued]

@[simp] theorem issued_totalSupply (lp : ArkSwapERC20) (dst : Address) (value : Nat) :
    (issued lp dst value).totalSupply = lp.totalSupply + value := rfl

@[simp] theorem issued_balanceOf (lp : ArkSwapERC20) (dst : Address) (value : Nat) :
    (issued lp dst value).balanceOf = Ledger.credit lp.balanceOf dst value := rfl

@[simp] theorem issued_allowance (lp : ArkSwapERC20) (dst : Address) (value : Nat) :
    (issued lp dst value).allowance = lp.allowance := rfl

theorem mintFee_ok {p q : ArkSwapPair} {lp lp' : ArkSwapERC20} {feeTo : Address} {r₀ r₁ : Nat}
    {feeOn : Bool} (h : mintFee p lp feeTo r₀ r₁ = .ok (feeOn, q, lp'))
    (hk : p.kLast < Uint.size) :
    (feeOn = true ↔ feeTo ≠ 0) ∧ q = { p with kLast := if feeTo = 0 then 0 else p.kLast } ∧
      lp' = issued lp feeTo (protocolFee p.kLast feeTo lp.totalSupply r₀ r₁) := by
  by_cases hf : feeTo = 0
  · by_cases h0 : p.kLast = 0
    · simp only [mintFee, hf, h0, ne_eq, not_true_eq_false, if_false, pure_eq_ok,
        Except.ok.injEq, Prod.mk.injEq] at h
      obtain ⟨rfl, rfl, rfl⟩ := h
      refine ⟨by simp [hf], ?_, by simp [hf]⟩
      rw [if_pos hf, ← h0]
    · simp only [mintFee, hf, h0, ne_eq, not_true_eq_false, not_false_eq_true, if_false, if_true,
        pure_eq_ok, Except.ok.injEq, Prod.mk.injEq] at h
      obtain ⟨rfl, rfl, rfl⟩ := h
      exact ⟨by simp [hf], by simp [hf], by simp [hf]⟩
  · rw [if_neg hf]
    by_cases h0 : p.kLast = 0
    · simp only [mintFee, hf, h0, ne_eq, not_true_eq_false, not_false_eq_true, if_false, if_true,
        pure_eq_ok, Except.ok.injEq, Prod.mk.injEq] at h
      obtain ⟨rfl, rfl, rfl⟩ := h
      exact ⟨iff_of_true rfl hf, rfl, by simp [protocolFee, h0]⟩
    · simp only [mintFee, hf, ne_eq, not_false_eq_true, if_true, h0, bind_eq_ok,
        SafeMath.mul_eq_ok, Math.sqrt_eq hk, Except.ok.injEq] at h
      obtain ⟨k, ⟨hkk, rfl⟩, rootK, hroot, _, rfl, h⟩ := h
      rw [Math.sqrt_eq hkk, Except.ok.injEq] at hroot
      subst hroot
      simp only [ite_eq_ok, pure_eq_ok, Except.ok.injEq, Prod.mk.injEq, bind_eq_ok,
        SafeMath.mul_eq_ok, SafeMath.sub_eq_ok, SafeMath.add_eq_ok, Uint.div_eq_ok,
        ArkSwapERC20.mint_eq_ok] at h
      simp only [protocolFee, hf, h0, or_self, if_false]
      rcases h with ⟨-, _, ⟨-, rfl⟩, _, ⟨-, rfl⟩, _, ⟨-, rfl⟩, _, ⟨-, rfl⟩, _, ⟨-, rfl⟩, h⟩ |
        ⟨hle, rfl, rfl, rfl⟩
      · rcases h with ⟨-, _, ⟨-, -, rfl⟩, rfl, rfl, rfl⟩ | ⟨hz, rfl, rfl, rfl⟩
        · exact ⟨iff_of_true rfl hf, rfl, rfl⟩
        · rw [Nat.eq_zero_of_not_pos hz]
          exact ⟨iff_of_true rfl hf, rfl, (issued_zero _ _).symm⟩
      · rw [Nat.sub_eq_zero_of_le (by omega), Nat.mul_zero, Nat.zero_div]
        exact ⟨iff_of_true rfl hf, rfl, (issued_zero _ _).symm⟩

end ArkSwapPair

end ArkSwap
