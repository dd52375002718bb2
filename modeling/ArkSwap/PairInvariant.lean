import ArkSwap.Lib.Shares
import ArkSwap.PairCallbacks

/-! The invariant of a pair and its preservation by every call. -/

namespace ArkSwap

open Checked ArkSwapPair

/-- The state of a pair between calls. Shares are covered by the reserves,
and by `kLast` while one is recorded. -/
structure Sound (pool t₀ t₁ : Address) (w : World) (p : ArkSwapPair) : Prop where
  pair : w.pair pool = some p
  unlocked : p.unlocked = 1
  token0 : p.token0 = t₀
  token1 : p.token1 = t₁
  solvent0 : p.reserve0 ≤ w.balanceOf t₀ pool
  solvent1 : p.reserve1 ≤ w.balanceOf t₁ pool
  fits0 : p.reserve0 ≤ Uint.max112
  fits1 : p.reserve1 ≤ Uint.max112
  conserved : ∀ t, t = pool ∨ t = t₀ ∨ t = t₁ → (w.token t).Conserved
  frozen : ∀ s, (w.token pool).allowance 0 s = 0
  covered : (w.token pool).totalSupply ^ 2 ≤ p.reserve0 * p.reserve1
  rooted : p.kLast = 0 ∨ (w.token pool).totalSupply ^ 2 ≤ p.kLast
  kLast_lt : p.kLast < Uint.size
  seeded : (w.token pool).totalSupply = 0 ∨ (MINIMUM_LIQUIDITY ≤ w.balanceOf pool 0 ∧
    0 < p.reserve0 ∧ 0 < p.reserve1)

theorem product_lt {b₀ b₁ : Nat} (h₀ : b₀ ≤ Uint.max112) (h₁ : b₁ ≤ Uint.max112) :
    b₀ * b₁ < 2 ^ 224 := by
  calc b₀ * b₁ ≤ Uint.max112 * Uint.max112 := Nat.mul_le_mul h₀ h₁
    _ < 2 ^ 224 := by norm_num [Uint.max112]

theorem lt_of_sq_le {S b₀ b₁ : Nat} (h₀ : b₀ ≤ Uint.max112) (h₁ : b₁ ≤ Uint.max112)
    (h : S ^ 2 ≤ b₀ * b₁) : S < 2 ^ 112 := by
  have hsq : S ^ 2 < (2 ^ 112) ^ 2 := h.trans_lt (product_lt h₀ h₁)
  exact lt_of_pow_lt_pow_left₀ 2 (Nat.zero_le _) hsq

theorem protocolFee_covered {k r₀ r₁ S : Nat} {feeTo : Address} (hc : S ^ 2 ≤ r₀ * r₁)
    (hr : k = 0 ∨ S ^ 2 ≤ k) : (S + protocolFee k feeTo S r₀ r₁) ^ 2 ≤ r₀ * r₁ := by
  unfold protocolFee
  by_cases h : feeTo = 0 ∨ k = 0
  · rwa [if_pos h, Nat.add_zero]
  · rw [if_neg h]
    have hk : S ≤ Nat.sqrt k := Nat.le_sqrt'.mpr (hr.resolve_left (fun h0 => h (.inr h0)))
    by_cases hle : Nat.sqrt k ≤ Nat.sqrt (r₀ * r₁)
    · have hpos : 0 < Nat.sqrt k := Nat.sqrt_pos.mpr (Nat.pos_of_ne_zero fun h0 => h (.inr h0))
      rw [Nat.mul_comm (Nat.sqrt (r₀ * r₁)) 5]
      exact Nat.le_sqrt'.mp (Shares.growth_covered hle hk (by omega) (Nat.div_mul_le_self _ _))
    · rw [Nat.sub_eq_zero_of_le (by omega), Nat.mul_zero, Nat.zero_div, Nat.add_zero]
      exact hc

theorem recordedK_rooted (feeTo : Address) {S b₀ b₁ : Nat} (h : S ^ 2 ≤ b₀ * b₁) :
    recordedK feeTo b₀ b₁ = 0 ∨ S ^ 2 ≤ recordedK feeTo b₀ b₁ := by
  by_cases h0 : feeTo = 0
  · exact .inl (if_pos h0)
  · rw [recordedK, if_neg h0]
    exact .inr h

theorem recordedK_lt (feeTo : Address) {b₀ b₁ : Nat} (h₀ : b₀ ≤ Uint.max112)
    (h₁ : b₁ ≤ Uint.max112) : recordedK feeTo b₀ b₁ < Uint.size := by
  have hlt : b₀ * b₁ < Uint.size := (product_lt h₀ h₁).trans (by norm_num [Uint.size])
  unfold recordedK
  split <;> omega

section Payment

variable {w : World} {self dst t : Address} {p : ArkSwapPair} {a₀ a₁ : Nat}

theorem paidOut_token_of_ne (h₀ : t ≠ p.token0) (h₁ : t ≠ p.token1) :
    (paidOut w self dst p a₀ a₁).token t = w.token t := by
  rw [paidOut, World.moved_token_of_ne _ _ _ h₁, World.moved_token_of_ne _ _ _ h₀]

theorem le_paidOut0 (w : World) (self dst : Address) (a₀ a₁ : Nat) (hne : p.token0 ≠ p.token1) :
    w.balanceOf p.token0 self - a₀ ≤ (paidOut w self dst p a₀ a₁).balanceOf p.token0 self := by
  rw [World.balanceOf, World.balanceOf, paidOut, World.moved_token_of_ne _ _ _ hne,
    World.moved_token]
  exact Ledger.le_move_src (w.token p.token0).balanceOf self dst a₀

theorem le_paidOut1 (w : World) (self dst : Address) (a₀ a₁ : Nat) (hne : p.token0 ≠ p.token1) :
    w.balanceOf p.token1 self - a₁ ≤ (paidOut w self dst p a₀ a₁).balanceOf p.token1 self := by
  rw [World.balanceOf, World.balanceOf, paidOut, World.moved_token,
    World.moved_token_of_ne _ _ _ hne.symm]
  exact Ledger.le_move_src (w.token p.token1).balanceOf self dst a₁

theorem paidOut_conserved (hne : p.token0 ≠ p.token1) (h₀ : a₀ ≤ w.balanceOf p.token0 self)
    (h₁ : a₁ ≤ w.balanceOf p.token1 self) (hc : (w.token t).Conserved) :
    ((paidOut w self dst p a₀ a₁).token t).Conserved := by
  by_cases ht₁ : t = p.token1
  · subst ht₁
    rw [paidOut, World.moved_token, World.moved_token_of_ne _ _ _ hne.symm]
    exact hc.move h₁
  · rw [paidOut, World.moved_token_of_ne _ _ _ ht₁]
    by_cases ht₀ : t = p.token0
    · subst ht₀
      rw [World.moved_token]
      exact hc.move h₀
    · rwa [World.moved_token_of_ne _ _ _ ht₀]

end Payment

namespace Sound

variable {self t₀ t₁ : Address} {w w' : World} {p : ArkSwapPair}

theorem supply_lt (h : Sound self t₀ t₁ w p) : (w.token self).totalSupply < 2 ^ 112 :=
  lt_of_sq_le h.fits0 h.fits1 h.covered

theorem fee_covered (h : Sound self t₀ t₁ w p) :
    (feeLedger w self p).totalSupply ^ 2 ≤ p.reserve0 * p.reserve1 :=
  protocolFee_covered h.covered h.rooted

theorem fee_supply_lt (h : Sound self t₀ t₁ w p) : (feeLedger w self p).totalSupply < 2 ^ 112 :=
  lt_of_sq_le h.fits0 h.fits1 h.fee_covered

theorem fee_conserved (h : Sound self t₀ t₁ w p) : (feeLedger w self p).Conserved :=
  (h.conserved self (.inl rfl)).issued (h.fee_supply_lt.trans (by norm_num [Uint.size]))

theorem fee_supply_eq_zero (h : (w.token self).totalSupply = 0) :
    (feeLedger w self p).totalSupply = 0 := by
  simp [feeLedger, protocolFee, h]

theorem seeded_of_fee (h : Sound self t₀ t₁ w p) (hS : (feeLedger w self p).totalSupply ≠ 0) :
    MINIMUM_LIQUIDITY ≤ w.balanceOf self 0 ∧ 0 < p.reserve0 ∧ 0 < p.reserve1 :=
  h.seeded.resolve_left (fun h0 => hS (fee_supply_eq_zero h0))

theorem settled {p₁ q : ArkSwapPair} {b₀ b₁ k : Nat} (hset : Settled p₁ q b₀ b₁ k)
    (ht₀ : p₁.token0 = t₀) (ht₁ : p₁.token1 = t₁) (hpair : w'.pair self = some q)
    (hb₀ : b₀ ≤ w'.balanceOf t₀ self) (hb₁ : b₁ ≤ w'.balanceOf t₁ self)
    (hc : ∀ t, t = self ∨ t = t₀ ∨ t = t₁ → (w'.token t).Conserved)
    (hf : ∀ s, (w'.token self).allowance 0 s = 0)
    (hcov : (w'.token self).totalSupply ^ 2 ≤ b₀ * b₁)
    (hk : k = 0 ∨ (w'.token self).totalSupply ^ 2 ≤ k) (hlt : k < Uint.size)
    (hseed : (w'.token self).totalSupply = 0 ∨
      (MINIMUM_LIQUIDITY ≤ w'.balanceOf self 0 ∧ 0 < b₀ ∧ 0 < b₁)) : Sound self t₀ t₁ w' q where
  pair := hpair
  unlocked := hset.unlocked
  token0 := hset.token0.trans ht₀
  token1 := hset.token1.trans ht₁
  solvent0 := hset.reserve0 ▸ hb₀
  solvent1 := hset.reserve1 ▸ hb₁
  fits0 := hset.reserve0 ▸ hset.fits0
  fits1 := hset.reserve1 ▸ hset.fits1
  conserved := hc
  frozen := hf
  covered := by rw [hset.reserve0, hset.reserve1]; exact hcov
  rooted := by rw [hset.kLast]; exact hk
  kLast_lt := by rw [hset.kLast]; exact hlt
  seeded := by rw [hset.reserve0, hset.reserve1]; exact hseed

theorem beside (h : Sound self t₀ t₁ w p) (hne₀ : t₀ ≠ self) (hne₁ : t₁ ≠ self)
    (hb : Beside self w w') : Sound self t₀ t₁ w' p where
  pair := hb.pair.trans h.pair
  unlocked := h.unlocked
  token0 := h.token0
  token1 := h.token1
  solvent0 := h.solvent0.trans (hb.paid t₀ hne₀)
  solvent1 := h.solvent1.trans (hb.paid t₁ hne₁)
  fits0 := h.fits0
  fits1 := h.fits1
  conserved t ht := hb.conserved t (h.conserved t ht)
  frozen := (hb.frozen h.frozen).1
  covered := hb.supply ▸ h.covered
  rooted := hb.supply ▸ h.rooted
  kLast_lt := h.kLast_lt
  seeded := h.seeded.imp (fun h0 => hb.supply.trans h0)
    (fun hs => ⟨hs.1.trans (hb.frozen h.frozen).2, hs.2⟩)

theorem feeLedger_frozen (h : Sound self t₀ t₁ w p) (s : Address) :
    (feeLedger w self p).allowance 0 s = 0 := h.frozen s

theorem feeLedger_balance (w : World) (self : Address) (p : ArkSwapPair) (a : Address) :
    w.balanceOf self a ≤ (feeLedger w self p).balanceOf a := Ledger.le_credit _ _ _ _

/-- The shares of a deposit are worth no more than the deposit. -/
theorem mintLiquidity_covered (h : Sound self t₀ t₁ w p) {lp : ArkSwapERC20} {b₀ b₁ L : Nat}
    (h₀ : p.reserve0 ≤ b₀) (h₁ : p.reserve1 ≤ b₁)
    (hL : mintLiquidity (feeLedger w self p) (b₀ - p.reserve0) (b₁ - p.reserve1) p.reserve0
      p.reserve1 = .ok (L, lp)) :
    lp.Conserved ∧ (∀ s, lp.allowance 0 s = 0) ∧ MINIMUM_LIQUIDITY ≤ lp.balanceOf 0 ∧ 0 < b₀ ∧
      0 < b₁ ∧ (lp.totalSupply + L) ^ 2 ≤ b₀ * b₁ ∧
      ((feeLedger w self p).totalSupply ≠ 0 →
        p.reserve0 * (lp.totalSupply + L) ≤ b₀ * (feeLedger w self p).totalSupply ∧
        p.reserve1 * (lp.totalSupply + L) ≤ b₁ * (feeLedger w self p).totalSupply) := by
  rcases mintLiquidity_ok hL with ⟨hz, hk, hroot, rfl⟩ | ⟨hz, -, -, hL₀, hL₁, rfl⟩
  · have hsq : (0 + MINIMUM_LIQUIDITY + L) ^ 2 ≤ (b₀ - p.reserve0) * (b₁ - p.reserve1) := by
      rw [Nat.zero_add, Nat.add_comm, hroot]
      exact Nat.sqrt_le' _
    have hle : (b₀ - p.reserve0) * (b₁ - p.reserve1) ≤ b₀ * b₁ :=
      Nat.mul_le_mul (Nat.sub_le _ _) (Nat.sub_le _ _)
    have hpos : 0 < b₀ * b₁ :=
      lt_of_lt_of_le (pow_pos (by unfold MINIMUM_LIQUIDITY; omega) 2) (hsq.trans hle)
    refine ⟨h.fee_conserved.issued ?_, h.feeLedger_frozen, ?_, Nat.pos_of_mul_pos_right hpos,
      Nat.pos_of_mul_pos_left hpos, ?_, fun hne => absurd hz hne⟩
    · rw [hz]
      norm_num [MINIMUM_LIQUIDITY, Uint.size]
    · rw [issued_balanceOf, Ledger.credit_self]
      exact Nat.le_add_left _ _
    · rw [issued_totalSupply, hz]
      exact hsq.trans hle
  · obtain ⟨hlock, hp₀, hp₁⟩ := h.seeded_of_fee hz
    have hv₀ := Shares.issue_div hL₀
    have hv₁ := Shares.issue_div hL₁
    rw [Nat.add_sub_cancel' h₀] at hv₀
    rw [Nat.add_sub_cancel' h₁] at hv₁
    refine ⟨h.fee_conserved, h.feeLedger_frozen, hlock.trans (feeLedger_balance _ _ _ _),
      hp₀.trans_le h₀, hp₁.trans_le h₁, ?_, fun _ => ⟨hv₀, hv₁⟩⟩
    exact (Shares.Keeps.of_each hv₀ hv₁).covered (Nat.pos_of_ne_zero hz) h.fee_covered

variable {env : Env} {sender dst : Address}

theorem deployed (h : Sound self t₀ t₁ w p) (hd : Deployed env self t₀ t₁) :
    Deployed env self p.token0 p.token1 := by
  rwa [h.token0, h.token1]

theorem mint (hd : Deployed env self t₀ t₁) (h : Sound self t₀ t₁ w p) {L : Nat}
    (hm : ArkSwapPair.mint w self sender dst = .ok (L, w')) :
    ∃ q, Sound self t₀ t₁ w' q ∧ (w'.token self).totalSupply ≠ 0 ∧
      ((feeLedger w self p).totalSupply ≠ 0 →
        p.reserve0 * (w'.token self).totalSupply ≤
          q.reserve0 * (feeLedger w self p).totalSupply ∧
        p.reserve1 * (w'.token self).totalSupply ≤
          q.reserve1 * (feeLedger w self p).totalSupply) := by
  obtain ⟨-, hr₀, hr₁, hpos, lp, lp', q, hL, hlp, hset, hpair, htok, -⟩ :=
    mint_ok h.pair h.kLast_lt hm
  obtain ⟨hc, hf, hlock, hb₀, hb₁, hcov, hv⟩ := h.mintLiquidity_covered hr₀ hr₁ hL
  have hc' := hc.mint hlp
  obtain ⟨-, -, rfl⟩ := ArkSwapERC20.mint_eq_ok.mp hlp
  have hself : w'.token self = issued lp dst L := by rw [htok, Function.update_self]; rfl
  have hother : ∀ t, t ≠ self → w'.token t = w.token t := fun t ht => by
    rw [htok, Function.update_of_ne ht]
  rw [h.token0, h.token1] at *
  refine ⟨q, settled hset h.token0 h.token1 (by rw [hpair, Function.update_self]) ?_ ?_ ?_ ?_ ?_
    (recordedK_rooted _ ?_) (recordedK_lt _ hset.fits0 hset.fits1) ?_, ?_, ?_⟩
  · rw [World.balanceOf, World.balanceOf, hother _ hd.token0_ne]
  · rw [World.balanceOf, World.balanceOf, hother _ hd.token1_ne]
  · intro t ht
    by_cases hs : t = self
    · subst hs
      rw [hself]
      exact hc'
    · rw [hother t hs]
      exact h.conserved t ht
  · rw [hself]
    exact hf
  · rw [hself]
    exact hcov
  · rw [hself]
    exact hcov
  · rw [World.balanceOf, hself]
    exact .inr ⟨hlock.trans (Ledger.le_credit _ _ _ _), hb₀, hb₁⟩
  · rw [hself, issued_totalSupply]
    omega
  · rw [hself, hset.reserve0, hset.reserve1]
    exact hv

/-- The locked shares keep a burn from redeeming all of them. -/
theorem burn_covered (hself : self ≠ 0) (h : Sound self t₀ t₁ w p) {lp : ArkSwapERC20} {L : Nat}
    (hS : (feeLedger w self p).totalSupply ≠ 0) (hlp : (feeLedger w self p).burn self L = .ok lp) :
    lp.Conserved ∧ (∀ s, lp.allowance 0 s = 0) ∧ MINIMUM_LIQUIDITY ≤ lp.balanceOf 0 ∧
      L < (feeLedger w self p).totalSupply ∧
      lp.totalSupply = (feeLedger w self p).totalSupply - L := by
  have hc := h.fee_conserved.burn hlp
  obtain ⟨hL, -, rfl⟩ := ArkSwapERC20.burn_eq_ok.mp hlp
  have hlock := (h.seeded_of_fee hS).1.trans (feeLedger_balance w self p 0)
  have hmin : 0 < MINIMUM_LIQUIDITY := by unfold MINIMUM_LIQUIDITY; omega
  have hsum : L + (feeLedger w self p).balanceOf 0 ≤ (feeLedger w self p).totalSupply := by
    rw [← h.fee_conserved.1]
    exact (Nat.add_le_add_right hL _).trans (Ledger.add_le_sum _ hself)
  exact ⟨hc, h.feeLedger_frozen, hlock.trans_eq (Ledger.debit_of_ne _ _ hself.symm).symm,
    by omega, rfl⟩

theorem burn (hd : Deployed env self t₀ t₁) (h : Sound self t₀ t₁ w p) {a₀ a₁ : Nat}
    (hm : ArkSwapPair.burn env w self sender dst = .ok ((a₀, a₁), w')) :
    ∃ q, Sound self t₀ t₁ w' q ∧ (w'.token self).totalSupply ≠ 0 ∧
      p.reserve0 * (w'.token self).totalSupply ≤
        q.reserve0 * (feeLedger w self p).totalSupply ∧
      p.reserve1 * (w'.token self).totalSupply ≤
        q.reserve1 * (feeLedger w self p).totalSupply := by
  obtain ⟨-, hne, hn₀, hn₁, hs₀, hs₁⟩ := h.deployed hd
  obtain ⟨-, hS, ha₀, ha₁, -, -, lp, q, hlp, hle₀, hle₁, hset, hpair, htok, -⟩ :=
    burn_ok hs₀ hs₁ h.pair h.kLast_lt hm
  obtain ⟨hc, hf, hlock, hL, hsupply⟩ := h.burn_covered hd.pool_ne hS hlp
  obtain ⟨-, hp₀, hp₁⟩ := h.seeded_of_fee hS
  have hself : w'.token self = lp := by
    rw [htok, paidOut_token_of_ne hn₀.symm hn₁.symm, World.setToken_token]
  have hx₀ := le_paidOut0 (w.setToken self lp) self dst a₀ a₁ hne
  have hx₁ := le_paidOut1 (w.setToken self lp) self dst a₀ a₁ hne
  rw [World.balanceOf_setToken_of_ne _ hn₀] at hx₀ hle₀
  rw [World.balanceOf_setToken_of_ne _ hn₁] at hx₁
  rw [World.balanceOf_moved_of_ne _ _ _ _ hne.symm, World.balanceOf_setToken_of_ne _ hn₁] at hle₁
  have hc₁ : ∀ t, t = self ∨ t = t₀ ∨ t = t₁ → (w'.token t).Conserved := by
    intro t ht
    rw [htok]
    refine paidOut_conserved hne ?_ ?_ ?_
    · rwa [World.balanceOf_setToken_of_ne _ hn₀]
    · rwa [World.balanceOf_setToken_of_ne _ hn₁]
    · by_cases hs : t = self
      · subst hs
        rwa [World.setToken_token]
      · rw [World.setToken_token_of_ne hs]
        exact h.conserved t ht
  have hb₀ : w'.balanceOf t₀ self =
      (paidOut (w.setToken self lp) self dst p a₀ a₁).balanceOf p.token0 self := by
    rw [World.balanceOf, World.balanceOf, htok, h.token0]
  have hb₁ : w'.balanceOf t₁ self =
      (paidOut (w.setToken self lp) self dst p a₀ a₁).balanceOf p.token1 self := by
    rw [World.balanceOf, World.balanceOf, htok, h.token1]
  have hsol₀ : p.reserve0 ≤ w.balanceOf p.token0 self := h.token0 ▸ h.solvent0
  have hsol₁ : p.reserve1 ≤ w.balanceOf p.token1 self := h.token1 ▸ h.solvent1
  generalize (paidOut (w.setToken self lp) self dst p a₀ a₁).balanceOf p.token0 self = b₀' at *
  generalize (paidOut (w.setToken self lp) self dst p a₀ a₁).balanceOf p.token1 self = b₁' at *
  generalize w.balanceOf p.token0 self = b₀ at *
  generalize w.balanceOf p.token1 self = b₁ at *
  have hv₀ : b₀ * lp.totalSupply ≤ b₀' * (feeLedger w self p).totalSupply := by
    rw [hsupply]
    exact (Shares.redeem hL.le).trans (Nat.mul_le_mul_right _ (ha₀ ▸ hx₀))
  have hv₁ : b₁ * lp.totalSupply ≤ b₁' * (feeLedger w self p).totalSupply := by
    rw [hsupply]
    exact (Shares.redeem hL.le).trans (Nat.mul_le_mul_right _ (ha₁ ▸ hx₁))
  have hcov : (w'.token self).totalSupply ^ 2 ≤ b₀' * b₁' := by
    rw [hself]
    refine (Shares.Keeps.of_each hv₀ hv₁).covered (Nat.pos_of_ne_zero hS) ?_
    exact h.fee_covered.trans (Nat.mul_le_mul hsol₀ hsol₁)
  have hlt₀ : a₀ < b₀ := ha₀ ▸ Shares.redeem_lt (hp₀.trans_le hsol₀) hL
  have hlt₁ : a₁ < b₁ := ha₁ ▸ Shares.redeem_lt (hp₁.trans_le hsol₁) hL
  refine ⟨q, settled hset h.token0 h.token1 (by rw [hpair, Function.update_self]) hb₀.ge hb₁.ge
    hc₁ (by rwa [hself]) hcov (recordedK_rooted _ hcov) (recordedK_lt _ hset.fits0 hset.fits1)
    (.inr ⟨?_, by omega, by omega⟩), ?_, ?_, ?_⟩
  · rwa [World.balanceOf, hself]
  · rw [hself, hsupply]
    omega
  · rw [hself, hset.reserve0]
    exact (Nat.mul_le_mul_right _ hsol₀).trans hv₀
  · rw [hself, hset.reserve1]
    exact (Nat.mul_le_mul_right _ hsol₁).trans hv₁

/-- A callback that leaves the pair alone leaves the swap sound. -/
theorem swap_beside (hd : Deployed env self t₀ t₁) (h : Sound self t₀ t₁ w p) {o₀ o₁ : Nat}
    {data : Option (World → Except String World)}
    (hback : ∀ w₁,
      callback data (paidOut (w.setPair self { p with unlocked := 0 }) self dst p o₀ o₁) = .ok w₁ →
      Beside self (paidOut (w.setPair self { p with unlocked := 0 }) self dst p o₀ o₁) w₁)
    (hm : ArkSwapPair.swap env w self sender o₀ o₁ dst data = .ok ((), w')) :
    ∃ q, Sound self t₀ t₁ w' q ∧
      (w'.token self).totalSupply = (w.token self).totalSupply ∧
      p.reserve0 * p.reserve1 ≤ q.reserve0 * q.reserve1 := by
  obtain ⟨-, hne, hn₀, hn₁, hs₀, hs₁⟩ := h.deployed hd
  obtain ⟨-, hr₀, hr₁, -, -, hle₀, hle₁, w₁, p₁, q, hcall, hp₁, hK, hset, hpair, htok, -⟩ :=
    swap_ok hs₀ hs₁ h.pair hm
  rw [World.balanceOf_moved_of_ne _ _ _ _ hne.symm] at hle₁
  have hb := hback w₁ hcall
  obtain rfl : { p with unlocked := 0 } = p₁ := by
    rw [hb.pair, paidOut, World.moved_pair, World.moved_pair, World.setPair_pair] at hp₁
    exact Option.some.inj hp₁
  have hlp : (paidOut (w.setPair self { p with unlocked := 0 }) self dst p o₀ o₁).token self =
      w.token self := paidOut_token_of_ne hn₀.symm hn₁.symm
  have hsupply : (w'.token self).totalSupply = (w.token self).totalSupply := by
    rw [htok, hb.supply, hlp]
  obtain ⟨hfrozen, hlock⟩ := hb.frozen (by rw [hlp]; exact h.frozen)
  rw [World.balanceOf, hlp] at hlock
  have hprod := ConstantProduct.Accepts.product_le (by norm_num) hK
  have hpos : 0 < w₁.balanceOf p.token0 self * w₁.balanceOf p.token1 self :=
    lt_of_lt_of_le (Nat.mul_pos (by omega) (by omega)) hprod
  have hc₁ : ∀ t, t = self ∨ t = t₀ ∨ t = t₁ → (w'.token t).Conserved := by
    intro t ht
    rw [htok]
    exact hb.conserved t (paidOut_conserved hne hle₀ hle₁ (h.conserved t ht))
  have hb₀ : w'.balanceOf t₀ self = w₁.balanceOf p.token0 self := by
    rw [World.balanceOf, World.balanceOf, htok, h.token0]
  have hb₁ : w'.balanceOf t₁ self = w₁.balanceOf p.token1 self := by
    rw [World.balanceOf, World.balanceOf, htok, h.token1]
  refine ⟨q, settled hset h.token0 h.token1 (by rw [hpair, Function.update_self]) hb₀.ge hb₁.ge
    hc₁ (by rwa [htok]) ?_ ?_ h.kLast_lt ?_, hsupply, ?_⟩
  · rw [hsupply]
    exact h.covered.trans hprod
  · rw [hsupply]
    exact h.rooted
  · rw [hsupply]
    refine h.seeded.imp_right (fun hs => ⟨?_, Nat.pos_of_mul_pos_right hpos,
      Nat.pos_of_mul_pos_left hpos⟩)
    rw [World.balanceOf, htok]
    exact hs.1.trans hlock
  · rw [hset.reserve0, hset.reserve1]
    exact hprod

theorem swap (hd : Deployed env self t₀ t₁) (h : Sound self t₀ t₁ w p) {o₀ o₁ : Nat}
    {data : Option (List (Call self))}
    (hm : ArkSwapPair.swap env w self sender o₀ o₁ dst (Call.execData env dst data) =
      .ok ((), w')) :
    ∃ q, Sound self t₀ t₁ w' q ∧
      (w'.token self).totalSupply = (w.token self).totalSupply ∧
      p.reserve0 * p.reserve1 ≤ q.reserve0 * q.reserve1 :=
  h.swap_beside hd (fun _ hcall => Call.callback_beside (p := { p with unlocked := 0 })
    (World.setPair_pair _ _ _) rfl hcall) hm

theorem skim (hd : Deployed env self t₀ t₁) (h : Sound self t₀ t₁ w p)
    (hm : ArkSwapPair.skim env w self dst = .ok ((), w')) :
    Sound self t₀ t₁ w' p ∧ w'.token self = w.token self := by
  obtain ⟨-, hne, hn₀, hn₁, hs₀, hs₁⟩ := h.deployed hd
  obtain ⟨-, hr₀, hr₁, hpair, htok, -⟩ := skim_ok hs₀ hs₁ h.pair hm
  rw [World.balanceOf_moved_of_ne _ _ _ _ hne.symm] at hr₁ htok
  have hlp : w'.token self = w.token self := by rw [htok, paidOut_token_of_ne hn₀.symm hn₁.symm]
  have hx₀ := le_paidOut0 w self dst (w.balanceOf p.token0 self - p.reserve0)
    (w.balanceOf p.token1 self - p.reserve1) hne
  have hx₁ := le_paidOut1 w self dst (w.balanceOf p.token0 self - p.reserve0)
    (w.balanceOf p.token1 self - p.reserve1) hne
  rw [Nat.sub_sub_self hr₀, World.balanceOf, ← htok, h.token0] at hx₀
  rw [Nat.sub_sub_self hr₁, World.balanceOf, ← htok, h.token1] at hx₁
  refine ⟨⟨by rw [hpair, h.pair], h.unlocked, h.token0, h.token1, hx₀, hx₁, h.fits0, h.fits1, ?_,
    by rw [hlp]; exact h.frozen, by rw [hlp]; exact h.covered, by rw [hlp]; exact h.rooted,
    h.kLast_lt, by rw [World.balanceOf, hlp]; exact h.seeded⟩, hlp⟩
  intro t ht
  rw [htok]
  exact paidOut_conserved hne (Nat.sub_le _ _) (Nat.sub_le _ _) (h.conserved t ht)

theorem sync (h : Sound self t₀ t₁ w p) (hm : ArkSwapPair.sync w self = .ok ((), w')) :
    ∃ q, Sound self t₀ t₁ w' q ∧ w'.token self = w.token self ∧ p.reserve0 ≤ q.reserve0 ∧
      p.reserve1 ≤ q.reserve1 := by
  obtain ⟨-, q, hset, hpair, htok, -⟩ := sync_ok h.pair hm
  have hlp : w'.token self = w.token self := by rw [htok]
  have hbal : ∀ t, w'.balanceOf t self = w.balanceOf t self := fun t => by
    rw [World.balanceOf, World.balanceOf, htok]
  rw [h.token0, h.token1] at hset
  refine ⟨q, settled hset h.token0 h.token1 (by rw [hpair, Function.update_self]) (hbal _).ge
    (hbal _).ge (fun t ht => by rw [htok]; exact h.conserved t ht) (by rw [hlp]; exact h.frozen)
    ?_ ?_ h.kLast_lt ?_, hlp, ?_, ?_⟩
  · rw [hlp]
    exact h.covered.trans (Nat.mul_le_mul h.solvent0 h.solvent1)
  · rw [hlp]
    exact h.rooted
  · rw [World.balanceOf, hlp]
    exact h.seeded.imp_right (fun hs => ⟨hs.1, hs.2.1.trans_le h.solvent0,
      hs.2.2.trans_le h.solvent1⟩)
  · exact hset.reserve0 ▸ h.solvent0
  · exact hset.reserve1 ▸ h.solvent1

end Sound

end ArkSwap
