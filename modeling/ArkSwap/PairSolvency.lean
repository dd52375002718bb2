import ArkSwap.PairInvariant

/-! Solvency, locked liquidity and the worth of a share over whole runs. -/

namespace ArkSwap

open Checked ArkSwapPair

variable {env : Env} {self t₀ t₁ : Address} {w w' w₀ : World} {p : ArkSwapPair}

theorem Fresh.sound (hd : Deployed env self t₀ t₁) (h : Fresh self t₀ t₁ w) :
    ∃ p, Sound self t₀ t₁ w p := by
  have hS : (w.token self).totalSupply = 0 := by rw [h.shares]; rfl
  refine ⟨_, h.pair, rfl, rfl, rfl, Nat.zero_le _, Nat.zero_le _, Nat.zero_le _, Nat.zero_le _,
    ?_, ?_, ?_, .inl rfl, ?_, .inl hS⟩
  · rintro t (rfl | rfl | rfl)
    · rw [h.shares]
      exact ArkSwapERC20.initial_conserved
    · exact h.conserved0
    · exact h.conserved1
  · rw [h.shares]
    exact fun s => rfl
  · rw [hS]
    norm_num
  · unfold Uint.size ArkSwapPair.initial
    norm_num

namespace Sound

theorem at_time (h : Sound self t₀ t₁ w p) (ts : Nat) :
    Sound self t₀ t₁ { w with timestamp := ts } p :=
  ⟨h.pair, h.unlocked, h.token0, h.token1, h.solvent0, h.solvent1, h.fits0, h.fits1, h.conserved,
    h.frozen, h.covered, h.rooted, h.kLast_lt, h.seeded⟩

/-- What every call keeps, and how the reserves and the supply move. -/
theorem exec (hd : Deployed env self t₀ t₁) (h : Sound self t₀ t₁ w p) {c : Call self}
    (hx : Call.exec env w c = .ok w') :
    ∃ q, Sound self t₀ t₁ w' q ∧
      (((∃ sender dst, c = .mint sender dst) ∨ (∃ sender dst, c = .burn sender dst)) ∧
          (w'.token self).totalSupply ≠ 0 ∧
          ((feeLedger w self p).totalSupply ≠ 0 →
            p.reserve0 * (w'.token self).totalSupply ≤
              q.reserve0 * (feeLedger w self p).totalSupply ∧
            p.reserve1 * (w'.token self).totalSupply ≤
              q.reserve1 * (feeLedger w self p).totalSupply) ∨
        (∀ sender dst, c ≠ .mint sender dst ∧ c ≠ .burn sender dst) ∧
          (w'.token self).totalSupply = (w.token self).totalSupply ∧
          p.reserve0 * p.reserve1 ≤ q.reserve0 * q.reserve1) := by
  by_cases hl : c.Locking
  · cases c with
    | mint sender dst =>
      simp only [Call.exec, bind_eq_ok, pure_eq_ok, Except.ok.injEq] at hx
      obtain ⟨⟨L, _⟩, hm, rfl⟩ := hx
      obtain ⟨q, hq, hne, hv⟩ := h.mint hd hm
      exact ⟨q, hq, .inl ⟨.inl ⟨sender, dst, rfl⟩, hne, hv⟩⟩
    | burn sender dst =>
      simp only [Call.exec, bind_eq_ok, pure_eq_ok, Except.ok.injEq] at hx
      obtain ⟨⟨⟨a₀, a₁⟩, _⟩, hm, rfl⟩ := hx
      obtain ⟨q, hq, hne, hv⟩ := h.burn hd hm
      exact ⟨q, hq, .inl ⟨.inr ⟨sender, dst, rfl⟩, hne, fun _ => hv⟩⟩
    | swap sender o₀ o₁ dst data =>
      simp only [Call.exec, bind_eq_ok, pure_eq_ok, Except.ok.injEq] at hx
      obtain ⟨⟨⟨⟩, _⟩, hm, rfl⟩ := hx
      obtain ⟨q, hq, hs, hk⟩ := h.swap hd hm
      exact ⟨q, hq, .inr ⟨by simp, hs, hk⟩⟩
    | skim dst =>
      simp only [Call.exec, bind_eq_ok, pure_eq_ok, Except.ok.injEq] at hx
      obtain ⟨⟨⟨⟩, _⟩, hm, rfl⟩ := hx
      obtain ⟨hq, hs⟩ := h.skim hd hm
      exact ⟨p, hq, .inr ⟨by simp, by rw [hs], le_refl _⟩⟩
    | sync =>
      simp only [Call.exec, bind_eq_ok, pure_eq_ok, Except.ok.injEq] at hx
      obtain ⟨⟨⟨⟩, _⟩, hm, rfl⟩ := hx
      obtain ⟨q, hq, hs, h₀, h₁⟩ := h.sync hm
      exact ⟨q, hq, .inr ⟨by simp, by rw [hs], Nat.mul_le_mul h₀ h₁⟩⟩
    | _ => exact hl.elim
  · have hb := Call.exec_beside hl hx
    refine ⟨p, h.beside hd.token0_ne hd.token1_ne hb, .inr ⟨?_, hb.supply, le_refl _⟩⟩
    intro sender dst
    exact ⟨fun hc => hl (hc ▸ trivial), fun hc => hl (hc ▸ trivial)⟩

theorem step (hd : Deployed env self t₀ t₁) (h : Sound self t₀ t₁ w p) (c : Nat × Call self) :
    ∃ q, Sound self t₀ t₁ (Call.step env w c) q ∧
      ((w.token self).totalSupply ≠ 0 → ((Call.step env w c).token self).totalSupply ≠ 0) := by
  unfold Call.step
  cases hx : Call.exec env { w with timestamp := c.1 } c.2 with
  | error e => exact ⟨p, h.at_time c.1, fun hne => hne⟩
  | ok w' =>
    obtain ⟨q, hq, ⟨-, hne, -⟩ | ⟨-, hs, -⟩⟩ := (h.at_time c.1).exec hd hx
    · exact ⟨q, hq, fun _ => hne⟩
    · exact ⟨q, hq, fun hne => hs ▸ hne⟩

theorem supply_ge (h : Sound self t₀ t₁ w p) (hne : (w.token self).totalSupply ≠ 0) :
    MINIMUM_LIQUIDITY ≤ w.balanceOf self 0 ∧ MINIMUM_LIQUIDITY ≤ (w.token self).totalSupply ∧
      0 < p.reserve0 ∧ 0 < p.reserve1 := by
  obtain ⟨hlock, h₀, h₁⟩ := h.seeded.resolve_left hne
  refine ⟨hlock, hlock.trans ?_, h₀, h₁⟩
  rw [← (h.conserved self (.inl rfl)).1]
  exact Ledger.le_sum _ _

end Sound

theorem run_sound (hd : Deployed env self t₀ t₁) (hf : Fresh self t₀ t₁ w₀)
    (calls : List (Nat × Call self)) : ∃ p, Sound self t₀ t₁ (Call.run env w₀ calls) p :=
  Run.run_inv (fun w => ∃ p, Sound self t₀ t₁ w p)
    (fun _ c ⟨_, h⟩ => (h.step hd c).imp fun _ hq => hq.1) (hf.sound hd) calls

/-- From the first mint that succeeds on, shares exist. -/
theorem run_minted (hd : Deployed env self t₀ t₁) (hf : Fresh self t₀ t₁ w₀)
    (before after : List (Nat × Call self)) {ts : Nat} {sender dst : Address}
    (hm : Call.exec env { Call.run env w₀ before with timestamp := ts }
      (.mint sender dst : Call self) = .ok w') :
    ((Call.run env w₀ (before ++ (ts, .mint sender dst) :: after)).token self).totalSupply ≠ 0 := by
  refine Run.run_since (fun w => ∃ p, Sound self t₀ t₁ w p)
    (fun w => (w.token self).totalSupply ≠ 0)
    (fun _ c ⟨_, h⟩ => (h.step hd c).imp fun _ hq => hq.1)
    (fun _ c ⟨_, h⟩ hne => by obtain ⟨q, -, hkeep⟩ := h.step hd c; exact hkeep hne)
    (hf.sound hd) before after ?_
  obtain ⟨p, hp⟩ := run_sound hd hf before
  obtain ⟨q, hq, ⟨-, hne, -⟩ | ⟨hc, -⟩⟩ := (hp.at_time ts).exec hd hm
  · have hstep : Call.step env (Call.run env w₀ before) (ts, (.mint sender dst : Call self)) = w' := by
      rw [Call.step, hm, attempt_ok]
    rw [hstep]
    exact hne
  · exact ((hc sender dst).1 rfl).elim

/-- Reserves are backed by balances and shares add up after any calls; once
liquidity was minted some of it stays locked and neither reserve is empty. -/
theorem run_solvent (hd : Deployed env self t₀ t₁) (hf : Fresh self t₀ t₁ w₀)
    (calls : List (Nat × Call self)) :
    ∃ p, (Call.run env w₀ calls).pair self = some p ∧
      p.reserve0 ≤ (Call.run env w₀ calls).balanceOf t₀ self ∧
      p.reserve1 ≤ (Call.run env w₀ calls).balanceOf t₁ self ∧
      ∑ a, (Call.run env w₀ calls).balanceOf self a =
        ((Call.run env w₀ calls).token self).totalSupply ∧
      ∀ before after ts sender dst w', calls = before ++ (ts, .mint sender dst) :: after →
        Call.exec env { Call.run env w₀ before with timestamp := ts }
          (.mint sender dst : Call self) = .ok w' →
        MINIMUM_LIQUIDITY ≤ (Call.run env w₀ calls).balanceOf self 0 ∧
          MINIMUM_LIQUIDITY ≤ ((Call.run env w₀ calls).token self).totalSupply ∧
          0 < p.reserve0 ∧ 0 < p.reserve1 := by
  obtain ⟨p, h⟩ := run_sound hd hf calls
  refine ⟨p, h.pair, h.solvent0, h.solvent1, (h.conserved self (.inl rfl)).1, ?_⟩
  rintro before after ts sender dst w' rfl hm
  exact h.supply_ge (run_minted hd hf before after hm)

theorem firstDeposit_solvent :
    ∃ p, (Call.run plainEnv freshWorld firstDeposit).pair 6 = some p ∧
      MINIMUM_LIQUIDITY ≤ (Call.run plainEnv freshWorld firstDeposit).balanceOf 6 0 ∧
      MINIMUM_LIQUIDITY ≤ ((Call.run plainEnv freshWorld firstDeposit).token 6).totalSupply ∧
      0 < p.reserve0 ∧ 0 < p.reserve1 := by
  obtain ⟨p, hp, -, -, -, hminted⟩ := run_solvent plainEnv_deployed freshWorld_fresh firstDeposit
  have hok : (Call.exec plainEnv
      { Call.run plainEnv freshWorld (firstDeposit.take 2) with timestamp := 1 }
      (.mint 7 7 : Call 6)).isOk = true := by decide +kernel
  obtain ⟨w', hw'⟩ := exists_ok hok
  exact ⟨p, hp, hminted _ [] 1 7 7 w' rfl hw'⟩

/-- No call takes worth from the remaining shares while the protocol takes
no fee; deposits and withdrawals take none in either token. -/
theorem exec_keeps_value (hd : Deployed env self t₀ t₁) (hf : Fresh self t₀ t₁ w₀)
    (calls : List (Nat × Call self)) (ts : Nat) {c : Call self}
    (hS : 0 < ((Call.run env w₀ calls).token self).totalSupply)
    (hfee : (Call.run env w₀ calls).factory.feeTo = 0)
    (hx : Call.exec env { Call.run env w₀ calls with timestamp := ts } c = .ok w') :
    ∃ p q, (Call.run env w₀ calls).pair self = some p ∧ w'.pair self = some q ∧
      p.reserve0 * p.reserve1 * (w'.token self).totalSupply ^ 2 ≤
        q.reserve0 * q.reserve1 * ((Call.run env w₀ calls).token self).totalSupply ^ 2 ∧
      ((∃ sender dst, c = .mint sender dst) ∨ (∃ sender dst, c = .burn sender dst) →
        p.reserve0 * (w'.token self).totalSupply ≤
          q.reserve0 * ((Call.run env w₀ calls).token self).totalSupply ∧
        p.reserve1 * (w'.token self).totalSupply ≤
          q.reserve1 * ((Call.run env w₀ calls).token self).totalSupply) := by
  obtain ⟨p, h⟩ := run_sound hd hf calls
  have hF : (feeLedger { Call.run env w₀ calls with timestamp := ts } self p).totalSupply =
      ((Call.run env w₀ calls).token self).totalSupply := by
    simp [feeLedger, hfee]
  obtain ⟨q, hq, ⟨-, -, hv⟩ | ⟨hc, hs, hk⟩⟩ := (h.at_time ts).exec hd hx
  · rw [hF] at hv
    obtain ⟨hv₀, hv₁⟩ := hv hS.ne'
    exact ⟨p, q, h.pair, hq.pair, Shares.Keeps.of_each hv₀ hv₁, fun _ => ⟨hv₀, hv₁⟩⟩
  · refine ⟨p, q, h.pair, hq.pair, ?_, ?_⟩
    · rw [hs]
      exact Shares.Keeps.of_le hk _
    · rintro (⟨sender, dst, rfl⟩ | ⟨sender, dst, rfl⟩)
      · exact ((hc sender dst).1 rfl).elim
      · exact ((hc sender dst).2 rfl).elim

theorem swapAfterDeposit_keeps_value :
    ∃ (w' : World) (p q : ArkSwapPair), (Call.run plainEnv freshWorld firstDeposit).pair 6 = some p ∧ w'.pair 6 = some q ∧
      p.reserve0 * p.reserve1 * (w'.token 6).totalSupply ^ 2 ≤ q.reserve0 * q.reserve1 *
        ((Call.run plainEnv freshWorld firstDeposit).token 6).totalSupply ^ 2 := by
  have hok : (Call.exec plainEnv
      { Call.run plainEnv freshWorld firstDeposit with timestamp := 2 }
      (.swap 7 1000 0 8 (some [.pay ⟨5, by decide⟩ ⟨7, by decide⟩ 6 2000]) : Call 6)).isOk =
        true := by decide +kernel
  obtain ⟨w', hw'⟩ := exists_ok hok
  obtain ⟨p, q, hp, hq, hv, -⟩ := exec_keeps_value plainEnv_deployed freshWorld_fresh firstDeposit 2
    (by decide +kernel) (by decide +kernel) hw'
  exact ⟨w', p, q, hp, hq, hv⟩

end ArkSwap
