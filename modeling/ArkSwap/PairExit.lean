import ArkSwap.PairSolvency

/-! Burning shares cannot be blocked by the arithmetic: the supply stays
below `2 ^ 112`, and every product formed from it and the balances is a word. -/

namespace ArkSwap

open Checked ArkSwapPair

variable {env : Env} {self t₀ t₁ : Address} {w w' w₀ : World} {p : ArkSwapPair}

namespace ArkSwapPair

theorem mintFee_defined {lp : ArkSwapERC20} {r₀ r₁ : Nat} (feeTo : Address)
    (h₀ : r₀ ≤ Uint.max112) (h₁ : r₁ ≤ Uint.max112) (hk : p.kLast < Uint.size)
    (hS : lp.totalSupply < 2 ^ 112)
    (hfee : lp.totalSupply + protocolFee p.kLast feeTo lp.totalSupply r₀ r₁ < Uint.size)
    (hbal : lp.balanceOf feeTo + protocolFee p.kLast feeTo lp.totalSupply r₀ r₁ < Uint.size) :
    ∃ r, mintFee p lp feeTo r₀ r₁ = .ok r := by
  unfold mintFee
  by_cases hf : feeTo = 0
  · rw [if_neg (not_not.mpr hf)]
    split <;> exact ⟨_, rfl⟩
  · rw [if_pos hf]
    by_cases h0 : p.kLast = 0
    · rw [if_neg (not_not.mpr h0)]
      exact ⟨_, rfl⟩
    · rw [if_pos h0]
      have hprod := product_lt h₀ h₁
      have hword : r₀ * r₁ < Uint.size := hprod.trans (by norm_num [Uint.size])
      have hmul : SafeMath.mul r₀ r₁ = .ok (r₀ * r₁) := if_pos hword
      have hroot : Nat.sqrt (r₀ * r₁) < 2 ^ 112 := by
        rw [Nat.sqrt_lt']
        exact hprod
      have hlast := Math.sqrt_lt_of_word hk
      have hpos : 0 < Nat.sqrt p.kLast := Nat.sqrt_pos.mpr (Nat.pos_of_ne_zero h0)
      simp only [protocolFee, hf, h0, or_self, if_false] at hfee hbal
      rw [hmul, ok_bind, Math.sqrt_eq hword, ok_bind, Math.sqrt_eq hk, ok_bind]
      generalize Nat.sqrt (r₀ * r₁) = K at *
      generalize Nat.sqrt p.kLast = k at *
      by_cases hlt : K > k
      · have hnum : lp.totalSupply * (K - k) < Uint.size := by
          calc lp.totalSupply * (K - k) ≤ 2 ^ 112 * 2 ^ 112 :=
                Nat.mul_le_mul hS.le ((Nat.sub_le _ _).trans hroot.le)
            _ < Uint.size := by norm_num [Uint.size]
        have hden : K * 5 + k < Uint.size := by unfold Uint.size; omega
        have hsub : SafeMath.sub K k = .ok (K - k) := if_pos hlt.le
        have hmul₁ : SafeMath.mul lp.totalSupply (K - k) = .ok (lp.totalSupply * (K - k)) :=
          if_pos hnum
        have hmul₂ : SafeMath.mul K 5 = .ok (K * 5) := if_pos (by omega)
        have hadd : SafeMath.add (K * 5) k = .ok (K * 5 + k) := if_pos hden
        have hdiv : Uint.div (lp.totalSupply * (K - k)) (K * 5 + k) =
            .ok (lp.totalSupply * (K - k) / (K * 5 + k)) := if_neg (by omega)
        rw [if_pos hlt, hsub, ok_bind, hmul₁, ok_bind, hmul₂, ok_bind, hadd, ok_bind, hdiv, ok_bind]
        by_cases hz : lp.totalSupply * (K - k) / (K * 5 + k) > 0
        · have hmint := ArkSwapERC20.mint_eq_ok.mpr ⟨hfee, hbal, rfl⟩
          rw [if_pos hz, hmint]
          exact ⟨_, rfl⟩
        · rw [if_neg hz]
          exact ⟨_, rfl⟩
      · rw [if_neg hlt]
        exact ⟨_, rfl⟩

theorem recordK_defined (feeOn : Bool) (h₀ : p.reserve0 ≤ Uint.max112)
    (h₁ : p.reserve1 ≤ Uint.max112) : ∃ q, recordK feeOn p = .ok q := by
  have hlt : p.reserve0 * p.reserve1 < Uint.size :=
    (product_lt h₀ h₁).trans (by norm_num [Uint.size])
  have hmul : SafeMath.mul p.reserve0 p.reserve1 = .ok (p.reserve0 * p.reserve1) := if_pos hlt
  unfold recordK
  cases feeOn with
  | false => exact ⟨_, rfl⟩
  | true =>
    rw [if_pos rfl, hmul]
    exact ⟨_, rfl⟩

section Payment

variable {a₀ a₁ : Nat} (dst : Address)

theorem paidOut_defined (hs₀ : Standard env p.token0) (hs₁ : Standard env p.token1)
    (hne : p.token0 ≠ p.token1) (hc₀ : (w.token p.token0).Conserved)
    (hc₁ : (w.token p.token1).Conserved) (h₀ : a₀ ≤ w.balanceOf p.token0 self)
    (h₁ : a₁ ≤ w.balanceOf p.token1 self) :
    safeTransfer env w p.token0 self dst a₀ = .ok (w.moved p.token0 self dst a₀) ∧
      safeTransfer env (w.moved p.token0 self dst a₀) p.token1 self dst a₁ =
        .ok (paidOut w self dst p a₀ a₁) := by
  rw [safeTransfer_eq_ok, safeTransfer_eq_ok, World.transfer_eq_ok hs₀, World.transfer_eq_ok hs₁,
    World.balanceOf_moved_of_ne _ _ _ _ hne.symm, World.moved_token_of_ne _ _ _ hne.symm]
  exact ⟨⟨h₀, hc₀.debit_add_lt h₀, rfl⟩, h₁, hc₁.debit_add_lt h₁, rfl⟩

theorem paidOut0_le (a₁ : Nat) (hne : p.token0 ≠ p.token1) (h : a₀ ≤ w.balanceOf p.token0 self) :
    (paidOut w self dst p a₀ a₁).balanceOf p.token0 self ≤ w.balanceOf p.token0 self := by
  rw [paidOut, World.balanceOf_moved_of_ne _ _ _ _ hne, World.balanceOf, World.moved_token]
  exact Ledger.move_src_le dst h

theorem paidOut1_le (a₀ : Nat) (hne : p.token0 ≠ p.token1) (h : a₁ ≤ w.balanceOf p.token1 self) :
    (paidOut w self dst p a₀ a₁).balanceOf p.token1 self ≤ w.balanceOf p.token1 self := by
  rw [paidOut, World.balanceOf, World.moved_token, World.moved_token_of_ne _ _ _ hne.symm]
  exact Ledger.move_src_le dst h

end Payment

end ArkSwapPair

namespace Sound

/-- The fee step succeeds in every reachable state. -/
theorem mintFee_ok (h : Sound self t₀ t₁ w p) (u : Nat) :
    ∃ feeOn, (feeOn = true ↔ w.factory.feeTo ≠ 0) ∧
      mintFee { p with unlocked := u } (w.token self) w.factory.feeTo p.reserve0 p.reserve1 =
        .ok (feeOn, { p with unlocked := u, kLast := if w.factory.feeTo = 0 then 0 else p.kLast },
          feeLedger w self p) := by
  have hc := h.fee_conserved
  have hbal := hc.balance_lt w.factory.feeTo
  rw [feeLedger, issued_balanceOf, Ledger.credit_self] at hbal
  obtain ⟨⟨feeOn, q, lp⟩, hr⟩ := mintFee_defined (p := { p with unlocked := u }) w.factory.feeTo
    h.fits0 h.fits1 h.kLast_lt h.supply_lt hc.2 hbal
  obtain ⟨hf, rfl, rfl⟩ := ArkSwapPair.mintFee_ok hr h.kLast_lt
  exact ⟨feeOn, hf, hr⟩

/-- What a burn pays in a token for the shares the pair holds. -/
def payout (w : World) (self : Address) (p : ArkSwapPair) (token : Address) : Nat :=
  w.balanceOf self self * w.balanceOf token self / (feeLedger w self p).totalSupply

/-- Burning fails only where nothing is owed in one of the tokens. -/
theorem burn_error (hd : Deployed env self t₀ t₁) (h : Sound self t₀ t₁ w p)
    (hb₀ : w.balanceOf t₀ self ≤ Uint.max112) (hb₁ : w.balanceOf t₁ self ≤ Uint.max112)
    {sender dst : Address} {e : String} (he : ArkSwapPair.burn env w self sender dst = .error e) :
    (payout w self p t₀ = 0 ∨ payout w self p t₁ = 0) ∧
      (e = "ArkSwap: INSUFFICIENT_LIQUIDITY_BURNED" ∨
        (feeLedger w self p).totalSupply = 0 ∧ e = "division by zero") := by
  obtain ⟨-, hne, hn₀, hn₁, hs₀, hs₁⟩ := h.deployed hd
  have hc₀ := h.conserved p.token0 (.inr (.inl h.token0))
  have hc₁ := h.conserved p.token1 (.inr (.inr h.token1))
  unfold payout
  rw [← h.token0, ← h.token1] at *
  obtain ⟨feeOn, -, hfee⟩ := h.mintFee_ok 0
  have hL : w.balanceOf self self ≤ (w.token self).totalSupply := by
    rw [← (h.conserved self (.inl rfl)).1]
    exact Ledger.le_sum _ _
  have hword : ∀ {b}, b ≤ Uint.max112 → w.balanceOf self self * b < Uint.size := fun {b} hb => by
    calc w.balanceOf self self * b ≤ 2 ^ 112 * Uint.max112 :=
          Nat.mul_le_mul (hL.trans h.supply_lt.le) hb
      _ < Uint.size := by norm_num [Uint.max112, Uint.size]
  have hmul₀ : SafeMath.mul (w.balanceOf self self) (w.balanceOf p.token0 self) =
      .ok (w.balanceOf self self * w.balanceOf p.token0 self) := if_pos (hword hb₀)
  have hmul₁ : SafeMath.mul (w.balanceOf self self) (w.balanceOf p.token1 self) =
      .ok (w.balanceOf self self * w.balanceOf p.token1 self) := if_pos (hword hb₁)
  have hstore : (w.setPair self { p with unlocked := 0 }).storage self =
      .ok { p with unlocked := 0 } := World.storage_eq_ok.mpr (World.setPair_pair _ _ _)
  rw [ArkSwapPair.burn, lock_open _ h.pair h.unlocked, hstore] at he
  simp only [ok_bind, World.balanceOf_setPair, World.setPair_token, World.setPair_factory, hmul₀,
    hmul₁, hfee] at he
  by_cases hF : (feeLedger w self p).totalSupply = 0
  · rw [hF] at he ⊢
    obtain rfl := Except.error.inj he
    exact ⟨.inl (Nat.div_zero _), .inr ⟨rfl, rfl⟩⟩
  have hdiv : ∀ x, Uint.div x (feeLedger w self p).totalSupply =
      .ok (x / (feeLedger w self p).totalSupply) := fun x => if_neg hF
  simp only [hdiv, ok_bind] at he
  have hLF : w.balanceOf self self ≤ (feeLedger w self p).totalSupply :=
    hL.trans (Nat.le_add_right _ _)
  have hle₀ := Shares.redeem_le (b := w.balanceOf p.token0 self) hLF
  have hle₁ := Shares.redeem_le (b := w.balanceOf p.token1 self) hLF
  generalize w.balanceOf self self * w.balanceOf p.token0 self / (feeLedger w self p).totalSupply =
    a₀ at *
  generalize w.balanceOf self self * w.balanceOf p.token1 self / (feeLedger w self p).totalSupply =
    a₁ at *
  by_cases hpos : a₀ > 0 ∧ a₁ > 0
  · exfalso
    have hburn := ArkSwapERC20.burn_eq_ok.mpr ⟨feeLedger_balance w self p self,
      hLF, rfl⟩
    rw [require_of hpos, ok_bind, hburn, ok_bind] at he
    generalize hu : ((w.setPair self { p with unlocked := 0 }).setToken self _).setPair self _ = u
      at he
    have hbal : ∀ t, t ≠ self → u.balanceOf t self = w.balanceOf t self := fun t ht => by
      rw [← hu, World.balanceOf_setPair, World.balanceOf_setToken_of_ne _ ht,
        World.balanceOf_setPair]
    have htok : ∀ t, t ≠ self → u.token t = w.token t := fun t ht => by
      rw [← hu, World.setPair_token, World.setToken_token_of_ne ht, World.setPair_token]
    rw [← hbal _ hn₀] at hle₀ hb₀
    rw [← hbal _ hn₁] at hle₁ hb₁
    rw [← htok _ hn₀] at hc₀
    rw [← htok _ hn₁] at hc₁
    obtain ⟨hpay₀, hpay₁⟩ := paidOut_defined dst hs₀ hs₁ hne hc₀ hc₁ hle₀ hle₁
    have hx₀ := (paidOut0_le dst a₁ hne hle₀).trans hb₀
    have hx₁ := (paidOut1_le dst a₀ hne hle₁).trans hb₁
    rw [hpay₀, ok_bind, hpay₁, ok_bind] at he
    obtain ⟨q, hq⟩ := update_defined { p with
      unlocked := 0, kLast := if w.factory.feeTo = 0 then 0 else p.kLast }
      (paidOut u self dst p a₀ a₁).timestamp p.reserve0 p.reserve1 hx₀ hx₁
    obtain ⟨-, -, e₀, e₁, -⟩ := update_ok hq
    obtain ⟨q', hq'⟩ := recordK_defined (p := q) feeOn (e₀ ▸ hx₀) (e₁ ▸ hx₁)
    rw [hq, ok_bind, hq', ok_bind] at he
    simp [World.storage] at he
  · rw [require_error_of_not hpos] at he
    obtain rfl := Except.error.inj he
    exact ⟨by omega, .inl rfl⟩

end Sound

/-- In every reachable state the supply is covered by the reserves, the fee
step cannot fail, and a burn fails only if a payout rounds to zero. -/
theorem run_burnable (hd : Deployed env self t₀ t₁) (hf : Fresh self t₀ t₁ w₀)
    (calls : List (Nat × Call self)) :
    ∃ p, (Call.run env w₀ calls).pair self = some p ∧
      ((Call.run env w₀ calls).token self).totalSupply ^ 2 ≤ p.reserve0 * p.reserve1 ∧
      ((Call.run env w₀ calls).token self).totalSupply < 2 ^ 112 ∧
      ((Call.run env w₀ calls).balanceOf t₀ self ≤ Uint.max112 →
        (Call.run env w₀ calls).balanceOf t₁ self ≤ Uint.max112 →
        (∃ r, mintFee p ((Call.run env w₀ calls).token self)
          (Call.run env w₀ calls).factory.feeTo p.reserve0 p.reserve1 = .ok r) ∧
        ∀ ts sender dst e,
          ArkSwapPair.burn env { Call.run env w₀ calls with timestamp := ts } self sender dst =
            .error e →
          (Sound.payout (Call.run env w₀ calls) self p t₀ = 0 ∨
            Sound.payout (Call.run env w₀ calls) self p t₁ = 0) ∧
          (e = "ArkSwap: INSUFFICIENT_LIQUIDITY_BURNED" ∨
            (feeLedger (Call.run env w₀ calls) self p).totalSupply = 0 ∧
              e = "division by zero")) := by
  obtain ⟨p, h⟩ := run_sound hd hf calls
  refine ⟨p, h.pair, h.covered, h.supply_lt, fun hb₀ hb₁ => ⟨?_, ?_⟩⟩
  · obtain ⟨feeOn, -, hfee⟩ := h.mintFee_ok p.unlocked
    exact ⟨_, hfee⟩
  · intro ts sender dst e he
    exact (h.at_time ts).burn_error hd hb₀ hb₁ he

theorem firstDeposit_burnable :
    ∃ p, (Call.run plainEnv freshWorld firstDeposit).pair 6 = some p ∧
      ∃ r, mintFee p ((Call.run plainEnv freshWorld firstDeposit).token 6)
        (Call.run plainEnv freshWorld firstDeposit).factory.feeTo p.reserve0 p.reserve1 = .ok r := by
  obtain ⟨p, hp, -, -, hburn⟩ := run_burnable plainEnv_deployed freshWorld_fresh firstDeposit
  exact ⟨p, hp, (hburn (by decide +kernel) (by decide +kernel)).1⟩

end ArkSwap
