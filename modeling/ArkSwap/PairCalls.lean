import ArkSwap.PairSpec

/-! Inversion of the pair's five calls: what had to hold for a call to
succeed, and the world it leaves. -/

namespace ArkSwap

open Checked

namespace ArkSwapPair

/-- Storage after `_update` with the lock released. -/
structure Settled (p q : ArkSwapPair) (balance0 balance1 kLast : Nat) : Prop where
  fits0 : balance0 ≤ Uint.max112
  fits1 : balance1 ≤ Uint.max112
  reserve0 : q.reserve0 = balance0
  reserve1 : q.reserve1 = balance1
  token0 : q.token0 = p.token0
  token1 : q.token1 = p.token1
  kLast : q.kLast = kLast
  unlocked : q.unlocked = 1

def feeLedger (w : World) (self : Address) (p : ArkSwapPair) : ArkSwapERC20 :=
  issued (w.token self) w.factory.feeTo
    (protocolFee p.kLast w.factory.feeTo (w.token self).totalSupply p.reserve0 p.reserve1)

/-- What a liquidity event records as `kLast`. -/
def recordedK (feeTo : Address) (balance0 balance1 : Nat) : Nat :=
  if feeTo = 0 then 0 else balance0 * balance1

theorem mintLiquidity_ok {lp lp' : ArkSwapERC20} {a₀ a₁ r₀ r₁ L : Nat}
    (h : mintLiquidity lp a₀ a₁ r₀ r₁ = .ok (L, lp')) :
    (lp.totalSupply = 0 ∧ a₀ * a₁ < Uint.size ∧ L + MINIMUM_LIQUIDITY = Nat.sqrt (a₀ * a₁) ∧
        lp' = issued lp 0 MINIMUM_LIQUIDITY) ∨
      (lp.totalSupply ≠ 0 ∧ r₀ ≠ 0 ∧ r₁ ≠ 0 ∧ L ≤ a₀ * lp.totalSupply / r₀ ∧
        L ≤ a₁ * lp.totalSupply / r₁ ∧ lp' = lp) := by
  simp only [mintLiquidity, ite_eq_ok, bind_eq_ok, SafeMath.mul_eq_ok, SafeMath.sub_eq_ok,
    Uint.div_eq_ok, ArkSwapERC20.mint_eq_ok, pure_eq_ok, Except.ok.injEq, Prod.mk.injEq,
    Math.min_eq] at h
  rcases h with ⟨hz, _, ⟨hk, rfl⟩, root, hroot, liquidity, ⟨hle, hl⟩, _, ⟨-, -, hlp⟩, rfl, rfl⟩ |
    ⟨hz, _, ⟨-, rfl⟩, _, ⟨h₀, rfl⟩, _, ⟨-, rfl⟩, _, ⟨h₁, rfl⟩, rfl, rfl⟩
  · rw [Math.sqrt_eq hk, Except.ok.injEq] at hroot
    subst hroot
    exact .inl ⟨hz, hk, hl ▸ Nat.sub_add_cancel hle, hlp⟩
  · exact .inr ⟨hz, h₀, h₁, Nat.min_le_left _ _, Nat.min_le_right _ _, rfl⟩

/-- Releasing the lock settles what `_update` and `recordK` wrote. -/
theorem settled_of_ok {p p' q q' : ArkSwapPair} {ts b₀ b₁ r₀ r₁ : Nat} {feeTo : Address}
    {feeOn : Bool} (hf : feeOn = true ↔ feeTo ≠ 0)
    (hp : p' = { p with unlocked := 0, kLast := if feeTo = 0 then 0 else p.kLast })
    (hq : p'.update ts b₀ b₁ r₀ r₁ = .ok q) (hk : recordK feeOn q = .ok q') :
    Settled p { q' with unlocked := 1 } b₀ b₁ (recordedK feeTo b₀ b₁) := by
  obtain ⟨f₀, f₁, e₀, e₁, t₀, t₁, k, -⟩ := update_ok hq
  obtain ⟨e₀', e₁', t₀', t₁', -, k'⟩ := recordK_ok hk
  subst hp
  refine ⟨f₀, f₁, e₀'.trans e₀, e₁'.trans e₁, t₀'.trans t₀, t₁'.trans t₁, ?_, rfl⟩
  by_cases h0 : feeTo = 0
  · simpa [recordedK, h0, k, show feeOn = false by simpa [h0] using hf] using k'
  · simpa [recordedK, h0, e₀, e₁, hf.mpr h0] using k'

theorem mint_ok {w w' : World} {self sender dst : Address} {p : ArkSwapPair} {L : Nat}
    (hp : w.pair self = some p) (hk : p.kLast < Uint.size)
    (h : mint w self sender dst = .ok (L, w')) :
    p.unlocked = 1 ∧ p.reserve0 ≤ w.balanceOf p.token0 self ∧
      p.reserve1 ≤ w.balanceOf p.token1 self ∧ 0 < L ∧ ∃ lp lp' q,
      mintLiquidity (feeLedger w self p) (w.balanceOf p.token0 self - p.reserve0)
        (w.balanceOf p.token1 self - p.reserve1) p.reserve0 p.reserve1 = .ok (L, lp) ∧
      lp.mint dst L = .ok lp' ∧
      Settled p q (w.balanceOf p.token0 self) (w.balanceOf p.token1 self)
        (recordedK w.factory.feeTo (w.balanceOf p.token0 self) (w.balanceOf p.token1 self)) ∧
      w'.pair = Function.update w.pair self (some q) ∧
      w'.token = Function.update w.token self lp' ∧ w'.factory = w.factory := by
  rw [mint, lock_eq_ok] at h
  obtain ⟨p', w₁, q, hp', hu, hb, hq, rfl⟩ := h
  obtain rfl : p = p' := Option.some.inj (hp.symm.trans hp')
  simp only [bind_eq_ok, World.storage_eq_ok, World.setPair_pair, World.balanceOf_setPair,
    World.setPair_token, World.setPair_factory, SafeMath.sub_eq_ok, require_eq_ok, pure_eq_ok,
    Except.ok.injEq, Prod.mk.injEq] at hb
  obtain ⟨_, hp₀, hb⟩ := hb
  cases hp₀
  obtain ⟨_, ⟨h₀, rfl⟩, _, ⟨h₁, rfl⟩, ⟨feeOn, q₁, lp₁⟩, hfee, ⟨L', lp₂⟩, hL, -, hpos, lp₃, hm,
    q₂, hupd, q₃, hrec, rfl, rfl⟩ := hb
  obtain ⟨hf, rfl, rfl⟩ := mintFee_ok hfee hk
  simp only [World.emit_pair, World.setPair_pair, Option.some.injEq] at hq
  subst hq
  exact ⟨hu, h₀, h₁, hpos, lp₂, lp₃, _, hL, hm, settled_of_ok hf rfl hupd hrec, by simp [World.setPair, World.emit, World.setToken],
    rfl, rfl⟩

def paidOut (w : World) (self dst : Address) (p : ArkSwapPair) (amount0 amount1 : Nat) : World :=
  (w.moved p.token0 self dst amount0).moved p.token1 self dst amount1

theorem burn_ok {env : Env} {w w' : World} {self sender dst : Address} {p : ArkSwapPair}
    {a₀ a₁ : Nat} (hs₀ : Standard env p.token0) (hs₁ : Standard env p.token1)
    (hp : w.pair self = some p) (hk : p.kLast < Uint.size)
    (h : burn env w self sender dst = .ok ((a₀, a₁), w')) :
    p.unlocked = 1 ∧ (feeLedger w self p).totalSupply ≠ 0 ∧
      a₀ = w.balanceOf self self * w.balanceOf p.token0 self / (feeLedger w self p).totalSupply ∧
      a₁ = w.balanceOf self self * w.balanceOf p.token1 self / (feeLedger w self p).totalSupply ∧
      0 < a₀ ∧ 0 < a₁ ∧ ∃ lp q,
      (feeLedger w self p).burn self (w.balanceOf self self) = .ok lp ∧
      a₀ ≤ (w.setToken self lp).balanceOf p.token0 self ∧
      a₁ ≤ ((w.setToken self lp).moved p.token0 self dst a₀).balanceOf p.token1 self ∧
      Settled p q ((paidOut (w.setToken self lp) self dst p a₀ a₁).balanceOf p.token0 self)
        ((paidOut (w.setToken self lp) self dst p a₀ a₁).balanceOf p.token1 self)
        (recordedK w.factory.feeTo
          ((paidOut (w.setToken self lp) self dst p a₀ a₁).balanceOf p.token0 self)
          ((paidOut (w.setToken self lp) self dst p a₀ a₁).balanceOf p.token1 self)) ∧
      w'.pair = Function.update w.pair self (some q) ∧
      w'.token = (paidOut (w.setToken self lp) self dst p a₀ a₁).token ∧
      w'.factory = w.factory := by
  rw [burn, lock_eq_ok] at h
  obtain ⟨p', w₁, q, hp', hu, hb, hq, rfl⟩ := h
  obtain rfl : p = p' := Option.some.inj (hp.symm.trans hp')
  rw [bind_eq_ok] at hb
  obtain ⟨_, hp₀, hb⟩ := hb
  rw [World.storage_eq_ok, World.setPair_pair] at hp₀
  cases hp₀
  simp only [bind_eq_ok, World.balanceOf_setPair, World.setPair_token, World.setPair_factory,
    SafeMath.mul_eq_ok, Uint.div_eq_ok, safeTransfer_eq_ok, World.transfer_eq_ok hs₀,
    World.transfer_eq_ok hs₁,
    require_eq_ok, pure_eq_ok, Except.ok.injEq, Prod.mk.injEq] at hb
  obtain ⟨⟨feeOn, q₁, lp₁⟩, hfee, _, ⟨-, rfl⟩, _, ⟨hz, rfl⟩, _, ⟨-, rfl⟩, _, ⟨-, rfl⟩, -,
    ⟨hpos₀, hpos₁⟩, lp₂, hburn, _, ⟨hle₀, -, rfl⟩, _, ⟨hle₁, -, rfl⟩, q₂, hupd, q₃, hrec,
    ⟨rfl, rfl⟩, rfl⟩ := hb
  obtain ⟨hf, rfl, rfl⟩ := mintFee_ok hfee hk
  simp only [World.emit_pair, World.setPair_pair, Option.some.injEq] at hq
  subst hq
  exact ⟨hu, hz, rfl, rfl, hpos₀, hpos₁, lp₂, _, hburn, hle₀, hle₁,
    settled_of_ok hf rfl hupd hrec,
    by simp [World.setPair, World.emit, World.setToken, World.moved], rfl, rfl⟩

theorem swap_ok {env : Env} {w w' : World} {self sender dst : Address} {p : ArkSwapPair}
    {o₀ o₁ : Nat} {data : Option (World → Except String World)}
    (hs₀ : Standard env p.token0) (hs₁ : Standard env p.token1) (hp : w.pair self = some p)
    (h : swap env w self sender o₀ o₁ dst data = .ok ((), w')) :
    p.unlocked = 1 ∧ o₀ < p.reserve0 ∧ o₁ < p.reserve1 ∧ dst ≠ p.token0 ∧ dst ≠ p.token1 ∧
      o₀ ≤ w.balanceOf p.token0 self ∧
      o₁ ≤ (w.moved p.token0 self dst o₀).balanceOf p.token1 self ∧ ∃ w₁ p₁ q,
      callback data (paidOut (w.setPair self { p with unlocked := 0 }) self dst p o₀ o₁) =
        .ok w₁ ∧
      w₁.pair self = some p₁ ∧
      ConstantProduct.Accepts 1000 3 (p.reserve0 * p.reserve1) (w₁.balanceOf p.token0 self)
        (amountIn (w₁.balanceOf p.token0 self) p.reserve0 o₀) (w₁.balanceOf p.token1 self)
        (amountIn (w₁.balanceOf p.token1 self) p.reserve1 o₁) ∧
      Settled p₁ q (w₁.balanceOf p.token0 self) (w₁.balanceOf p.token1 self) p₁.kLast ∧
      w'.pair = Function.update w₁.pair self (some q) ∧ w'.token = w₁.token ∧
      w'.factory = w₁.factory := by
  rw [swap, lock_eq_ok] at h
  obtain ⟨p', w₁, q, hp', hu, hb, hq, rfl⟩ := h
  obtain rfl : p = p' := Option.some.inj (hp.symm.trans hp')
  rw [bind_eq_ok] at hb
  obtain ⟨_, -, hb⟩ := hb
  rw [bind_eq_ok] at hb
  obtain ⟨_, hp₀, hb⟩ := hb
  rw [World.storage_eq_ok, World.setPair_pair] at hp₀
  cases hp₀
  simp only [bind_eq_ok, World.storage_eq_ok, require_eq_ok, pure_eq_ok, Except.ok.injEq,
    Prod.mk.injEq] at hb
  obtain ⟨-, ⟨hr₀, hr₁⟩, -, ⟨hd₀, hd₁⟩, w₂, hw₂, w₃, hw₃, w₄, hw₄, -, -, _, hk, p₁, hp₁, q₁, hupd, -,
    rfl⟩ := hb
  obtain ⟨hle₀, rfl⟩ := sendOut_ok hs₀ hw₂
  obtain ⟨hle₁, rfl⟩ := sendOut_ok hs₁ hw₃
  have hK := requireK_ok hk
  simp only [World.emit_pair, World.setPair_pair, Option.some.injEq] at hq
  subst hq
  obtain ⟨f₀, f₁, e₀, e₁, t₀, t₁, k, -⟩ := update_ok hupd
  exact ⟨hu, hr₀, hr₁, hd₀, hd₁, hle₀, hle₁, w₄, p₁, { q₁ with unlocked := 1 }, hw₄, hp₁, hK,
    ⟨f₀, f₁, e₀, e₁, t₀, t₁, k, rfl⟩, by simp [World.setPair, World.emit], rfl, rfl⟩

theorem skim_ok {env : Env} {w w' : World} {self dst : Address} {p : ArkSwapPair}
    (hs₀ : Standard env p.token0) (hs₁ : Standard env p.token1) (hp : w.pair self = some p)
    (h : skim env w self dst = .ok ((), w')) :
    p.unlocked = 1 ∧ p.reserve0 ≤ w.balanceOf p.token0 self ∧
      p.reserve1 ≤ (w.moved p.token0 self dst
        (w.balanceOf p.token0 self - p.reserve0)).balanceOf p.token1 self ∧
      w'.pair = w.pair ∧
      w'.token = (paidOut w self dst p (w.balanceOf p.token0 self - p.reserve0)
        ((w.moved p.token0 self dst (w.balanceOf p.token0 self - p.reserve0)).balanceOf p.token1
          self - p.reserve1)).token ∧
      w'.factory = w.factory := by
  rw [skim, lock_eq_ok] at h
  obtain ⟨p', w₁, q, hp', hu, hb, hq, rfl⟩ := h
  obtain rfl : p = p' := Option.some.inj (hp.symm.trans hp')
  rw [bind_eq_ok] at hb
  obtain ⟨_, hp₀, hb⟩ := hb
  rw [World.storage_eq_ok, World.setPair_pair] at hp₀
  cases hp₀
  simp only [bind_eq_ok, World.balanceOf_setPair, SafeMath.sub_eq_ok, safeTransfer_eq_ok, World.transfer_eq_ok hs₀,
    World.transfer_eq_ok hs₁, pure_eq_ok,
    Except.ok.injEq, Prod.mk.injEq] at hb
  obtain ⟨_, ⟨h₀, rfl⟩, _, ⟨-, -, rfl⟩, _, ⟨h₁, rfl⟩, _, ⟨-, -, rfl⟩, -, rfl⟩ := hb
  simp only [World.moved_pair, World.setPair_pair, Option.some.injEq] at hq
  subst hq
  refine ⟨hu, h₀, h₁, ?_, rfl, rfl⟩
  have hself : ({ p with unlocked := 1 } : ArkSwapPair) = p := by rw [← hu]
  funext a
  by_cases ha : a = self
  · subst ha
    rw [World.setPair_pair, hp, hself]
  · simp [World.setPair, World.moved, World.setToken, ha]

theorem sync_ok {w w' : World} {self : Address} {p : ArkSwapPair} (hp : w.pair self = some p)
    (h : sync w self = .ok ((), w')) :
    p.unlocked = 1 ∧ ∃ q,
      Settled p q (w.balanceOf p.token0 self) (w.balanceOf p.token1 self) p.kLast ∧
      w'.pair = Function.update w.pair self (some q) ∧ w'.token = w.token ∧
      w'.factory = w.factory := by
  rw [sync, lock_eq_ok] at h
  obtain ⟨p', w₁, q, hp', hu, hb, hq, rfl⟩ := h
  obtain rfl : p = p' := Option.some.inj (hp.symm.trans hp')
  simp only [bind_eq_ok, World.storage_eq_ok, World.setPair_pair, World.balanceOf_setPair,
    pure_eq_ok, Except.ok.injEq, Prod.mk.injEq] at hb
  obtain ⟨_, hp₀, q₁, hupd, -, rfl⟩ := hb
  cases hp₀
  simp only [World.emit_pair, World.setPair_pair, Option.some.injEq] at hq
  subst hq
  obtain ⟨f₀, f₁, e₀, e₁, t₀, t₁, k, -⟩ := update_ok hupd
  exact ⟨hu, { q₁ with unlocked := 1 }, ⟨f₀, f₁, e₀, e₁, t₀, t₁, k, rfl⟩,
    by simp [World.setPair, World.emit], rfl, rfl⟩

end ArkSwapPair

end ArkSwap
