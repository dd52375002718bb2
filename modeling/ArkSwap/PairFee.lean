import ArkSwap.PairExit

/-! The protocol fee: the shares a mint or burn issues to the fee recipient,
and the growth of the pool they are charged on. -/

namespace ArkSwap

open Checked ArkSwapPair

variable {env : Env} {self t₀ t₁ : Address} {w w' w₀ : World} {p : ArkSwapPair}

namespace Call

def Liquidity : Call self → Bool
  | mint .. | burn .. => true
  | _ => false

end Call

theorem written {q q' : ArkSwapPair} {pairs : Address → Option ArkSwapPair}
    (h : w'.pair = Function.update pairs self (some q')) (hq : w'.pair self = some q) : q' = q := by
  rw [h, Function.update_self] at hq
  exact Option.some.inj hq

namespace Sound

variable {q : ArkSwapPair} {sender dst : Address}

/-- A mint records the product while the fee is on, and clears the record
while it is off. -/
theorem mint_kLast (h : Sound self t₀ t₁ w p) {L : Nat}
    (hm : ArkSwapPair.mint w self sender dst = .ok (L, w')) (hq : w'.pair self = some q) :
    q.kLast = recordedK w.factory.feeTo q.reserve0 q.reserve1 ∧ w'.factory = w.factory := by
  obtain ⟨-, -, -, -, -, -, q', -, -, hset, hpair, -, hfac⟩ := mint_ok h.pair h.kLast_lt hm
  rw [← written hpair hq]
  exact ⟨by rw [hset.kLast, hset.reserve0, hset.reserve1], hfac⟩

theorem burn_kLast (hd : Deployed env self t₀ t₁) (h : Sound self t₀ t₁ w p) {a : Nat × Nat}
    (hm : ArkSwapPair.burn env w self sender dst = .ok (a, w')) (hq : w'.pair self = some q) :
    q.kLast = recordedK w.factory.feeTo q.reserve0 q.reserve1 ∧ w'.factory = w.factory := by
  obtain ⟨-, -, -, -, -, -, lp, q', -, -, -, hset, hpair, -, hfac⟩ :=
    burn_ok (h.deployed hd).standard0 (h.deployed hd).standard1 h.pair h.kLast_lt hm
  rw [← written hpair hq]
  exact ⟨by rw [hset.kLast, hset.reserve0, hset.reserve1], hfac⟩

theorem swap_kLast (hd : Deployed env self t₀ t₁) (h : Sound self t₀ t₁ w p) {o₀ o₁ : Nat}
    {data : Option (List (Call self))}
    (hm : ArkSwapPair.swap env w self sender o₀ o₁ dst (Call.execData env dst data) = .ok ((), w'))
    (hq : w'.pair self = some q) : q.kLast = p.kLast := by
  obtain ⟨-, -, -, -, -, -, -, w₁, p₁, q', hcall, hp₁, -, hset, hpair, -⟩ :=
    swap_ok (h.deployed hd).standard0 (h.deployed hd).standard1 h.pair hm
  have hb := Call.callback_beside
    (w := paidOut (w.setPair self { p with unlocked := 0 }) self dst p o₀ o₁)
    (p := { p with unlocked := 0 }) (World.setPair_pair _ _ _) rfl hcall
  rw [hb.pair, paidOut, World.moved_pair, World.moved_pair, World.setPair_pair,
    Option.some.injEq] at hp₁
  subst hp₁
  rw [← written hpair hq]
  exact hset.kLast

/-- What each call does to `kLast`, and that only liquidity events lower the
product or change the supply. -/
theorem exec_kLast (hd : Deployed env self t₀ t₁) (h : Sound self t₀ t₁ w p) {c : Call self}
    (hx : Call.exec env w c = .ok w') :
    ∃ q, Sound self t₀ t₁ w' q ∧
      (c.Liquidity = true ∧ q.kLast = recordedK w.factory.feeTo q.reserve0 q.reserve1 ∧
          (w'.token self).totalSupply ≠ 0 ∨
        c.Liquidity = false ∧ q.kLast = p.kLast ∧
          p.reserve0 * p.reserve1 ≤ q.reserve0 * q.reserve1 ∧
          (w'.token self).totalSupply = (w.token self).totalSupply) := by
  obtain ⟨q, hq, ⟨⟨sender, dst, rfl⟩ | ⟨sender, dst, rfl⟩, hS, -⟩ | ⟨hn, hS, hprod⟩⟩ := h.exec hd hx
  · simp only [Call.exec, bind_eq_ok, pure_eq_ok, Except.ok.injEq] at hx
    obtain ⟨⟨L, _⟩, hm, rfl⟩ := hx
    exact ⟨q, hq, .inl ⟨rfl, (h.mint_kLast hm hq.pair).1, hS⟩⟩
  · simp only [Call.exec, bind_eq_ok, pure_eq_ok, Except.ok.injEq] at hx
    obtain ⟨⟨a, _⟩, hm, rfl⟩ := hx
    exact ⟨q, hq, .inl ⟨rfl, (h.burn_kLast hd hm hq.pair).1, hS⟩⟩
  · have hkeep : w'.pair self = w.pair self → q.kLast = p.kLast := fun he => by
      rw [Option.some.inj (hq.pair.symm.trans (he.trans h.pair))]
    refine ⟨q, hq, .inr ⟨?_, ?_, hprod, hS⟩⟩
    · cases c with
      | mint sender dst => exact ((hn sender dst).1 rfl).elim
      | burn sender dst => exact ((hn sender dst).2 rfl).elim
      | _ => rfl
    · by_cases hl : c.Locking
      · cases c with
        | mint sender dst => exact ((hn sender dst).1 rfl).elim
        | burn sender dst => exact ((hn sender dst).2 rfl).elim
        | swap sender o₀ o₁ dst data =>
          simp only [Call.exec, bind_eq_ok, pure_eq_ok, Except.ok.injEq] at hx
          obtain ⟨⟨⟨⟩, _⟩, hm, rfl⟩ := hx
          exact h.swap_kLast hd hm hq.pair
        | skim dst =>
          simp only [Call.exec, bind_eq_ok, pure_eq_ok, Except.ok.injEq] at hx
          obtain ⟨⟨⟨⟩, _⟩, hm, rfl⟩ := hx
          obtain ⟨-, -, -, hpair, -⟩ :=
            skim_ok (h.deployed hd).standard0 (h.deployed hd).standard1 h.pair hm
          exact hkeep (by rw [hpair])
        | sync =>
          simp only [Call.exec, bind_eq_ok, pure_eq_ok, Except.ok.injEq] at hx
          obtain ⟨⟨⟨⟩, _⟩, hm, rfl⟩ := hx
          obtain ⟨-, q', hset, hpair, -⟩ := sync_ok h.pair hm
          rw [← written hpair hq.pair]
          exact hset.kLast
        | _ => exact hl.elim
      · exact hkeep (Call.exec_beside hl hx).pair

end Sound

/-- Between calls, `kLast` is at most the product and is recorded only once
shares exist. -/
structure Recorded (pool t₀ t₁ : Address) (w : World) (p : ArkSwapPair) : Prop
    extends Sound pool t₀ t₁ w p where
  kLast_le : p.kLast ≤ p.reserve0 * p.reserve1
  supplied : p.kLast = 0 ∨ (w.token pool).totalSupply ≠ 0

namespace Recorded

theorem exec (hd : Deployed env self t₀ t₁) (h : Recorded self t₀ t₁ w p) {c : Call self}
    (hx : Call.exec env w c = .ok w') : ∃ q, Recorded self t₀ t₁ w' q := by
  obtain ⟨q, hq, ⟨-, hk, hS⟩ | ⟨-, hk, hprod, hS⟩⟩ := h.toSound.exec_kLast hd hx
  · refine ⟨q, hq, ?_, .inr hS⟩
    rw [hk, recordedK]
    split <;> omega
  · exact ⟨q, hq, hk ▸ h.kLast_le.trans hprod, by rw [hk, hS]; exact h.supplied⟩

theorem at_time (h : Recorded self t₀ t₁ w p) (ts : Nat) :
    Recorded self t₀ t₁ { w with timestamp := ts } p :=
  ⟨h.toSound.at_time ts, h.kLast_le, h.supplied⟩

theorem step (hd : Deployed env self t₀ t₁) (h : Recorded self t₀ t₁ w p)
    (c : Nat × Call self) : ∃ q, Recorded self t₀ t₁ (Call.step env w c) q := by
  unfold Call.step
  cases hx : Call.exec env { w with timestamp := c.1 } c.2 with
  | error e => exact ⟨p, h.at_time c.1⟩
  | ok w' => exact (h.at_time c.1).exec hd hx

end Recorded

theorem Fresh.recorded (hd : Deployed env self t₀ t₁) (h : Fresh self t₀ t₁ w) :
    ∃ p, Recorded self t₀ t₁ w p := by
  obtain ⟨p, hp⟩ := h.sound hd
  have hk : p.kLast = 0 := by rw [Option.some.inj (hp.pair.symm.trans h.pair)]; rfl
  exact ⟨p, hp, hk ▸ Nat.zero_le _, .inl hk⟩

theorem run_recorded (hd : Deployed env self t₀ t₁) (hf : Fresh self t₀ t₁ w₀)
    (calls : List (Nat × Call self)) : ∃ p, Recorded self t₀ t₁ (Call.run env w₀ calls) p :=
  Run.run_inv (fun w => ∃ p, Recorded self t₀ t₁ w p) (fun _ c ⟨_, h⟩ => h.step hd c)
    (hf.recorded hd) calls

/-- At most a sixth of the growth of the root, and never so much that a share
is worth less than at the last liquidity event. -/
theorem protocolFee_bounded {feeTo : Address} {k S r₀ r₁ : Nat} (hk : k ≤ r₀ * r₁) :
    (Nat.sqrt k < Nat.sqrt (r₀ * r₁) → 6 * Nat.sqrt (r₀ * r₁) * protocolFee k feeTo S r₀ r₁ ≤
        (S + protocolFee k feeTo S r₀ r₁) * (Nat.sqrt (r₀ * r₁) - Nat.sqrt k)) ∧
      (Nat.sqrt (r₀ * r₁) ≤ Nat.sqrt k → protocolFee k feeTo S r₀ r₁ = 0) ∧
      Nat.sqrt k * (S + protocolFee k feeTo S r₀ r₁) ≤ Nat.sqrt (r₀ * r₁) * S := by
  have hroot : Nat.sqrt k ≤ Nat.sqrt (r₀ * r₁) := Nat.sqrt_le_sqrt hk
  unfold protocolFee
  split_ifs with h
  · refine ⟨fun _ => by simp, fun _ => rfl, ?_⟩
    rw [Nat.add_zero]
    exact Nat.mul_le_mul_right S hroot
  · have hL := Nat.div_mul_le_self (S * (Nat.sqrt (r₀ * r₁) - Nat.sqrt k))
      (Nat.sqrt (r₀ * r₁) * 5 + Nat.sqrt k)
    rw [Nat.mul_comm (Nat.sqrt (r₀ * r₁)) 5] at *
    refine ⟨fun _ => Shares.growth_share hL hroot, fun hle => ?_, Shares.growth_kept hL hroot⟩
    rw [Nat.sub_eq_zero_of_le hle, Nat.mul_zero, Nat.zero_div]

def withFee (w : World) (self : Address) (L : Nat) : ArkSwapERC20 :=
  issued (w.token self) w.factory.feeTo L

/-- A liquidity event that starts by issuing `L` shares to the fee recipient. -/
structure Charges (w : World) (self : Address) (p : ArkSwapPair) (c : Call self) (w' : World)
    (L : Nat) : Prop where
  event : c.Liquidity = true
  fee : mintFee p (w.token self) w.factory.feeTo p.reserve0 p.reserve1 =
    .ok (true, p, withFee w self L)
  mint : ∀ sender dst, c = .mint sender dst →
    ∃ liquidity, w'.token self = issued (withFee w self L) dst liquidity
  burn : ∀ sender dst, c = .burn sender dst →
    (withFee w self L).burn self (w.balanceOf self self) = .ok (w'.token self)

theorem Recorded.charges (hd : Deployed env self t₀ t₁) (h : Recorded self t₀ t₁ w p)
    {c : Call self} (hc : c.Liquidity = true) (hx : Call.exec env w c = .ok w') (hfee : w.factory.feeTo ≠ 0)
    (hk : p.kLast ≠ 0) :
    Charges w self p c w' (protocolFee p.kLast w.factory.feeTo (w.token self).totalSupply
      p.reserve0 p.reserve1) := by
  refine ⟨hc, ?_, ?_, ?_⟩
  · obtain ⟨feeOn, hon, hrun⟩ := h.toSound.mintFee_ok p.unlocked
    rw [hon.mpr hfee, if_neg hfee] at hrun
    exact hrun
  · rintro sender dst rfl
    simp only [Call.exec, bind_eq_ok, pure_eq_ok, Except.ok.injEq] at hx
    obtain ⟨⟨L, _⟩, hm, rfl⟩ := hx
    obtain ⟨-, -, -, -, lp, lp', q, hL, hlp, -, -, htok, -⟩ := mint_ok h.pair h.kLast_lt hm
    obtain ⟨-, -, rfl⟩ := ArkSwapERC20.mint_eq_ok.mp hlp
    refine ⟨L, ?_⟩
    rcases mintLiquidity_ok hL with ⟨hz, -⟩ | ⟨-, -, -, -, -, rfl⟩
    · exact absurd (Nat.eq_zero_of_add_eq_zero_right hz) (h.supplied.resolve_left hk)
    · rw [htok, Function.update_self]
      rfl
  · rintro sender dst rfl
    simp only [Call.exec, bind_eq_ok, pure_eq_ok, Except.ok.injEq] at hx
    obtain ⟨⟨⟨a₀, a₁⟩, _⟩, hm, rfl⟩ := hx
    obtain ⟨-, -, -, -, -, -, lp, q, hlp, -, -, -, -, htok, -⟩ :=
      burn_ok (h.deployed hd).standard0 (h.deployed hd).standard1 h.pair h.kLast_lt hm
    rw [htok, paidOut_token_of_ne (h.deployed hd).token0_ne.symm (h.deployed hd).token1_ne.symm,
      World.setToken_token]
    exact hlp

/-- In every reachable state with the fee on and a product on record, a mint or
burn issues to the fee recipient at most a sixth of the growth of the root,
nothing without growth, and never what the other shares were worth when the
product was recorded. -/
theorem protocol_fee_bounded (hd : Deployed env self t₀ t₁) (hf : Fresh self t₀ t₁ w₀)
    (calls : List (Nat × Call self)) (ts : Nat) {c : Call self} (hc : c.Liquidity = true)
    (hx : Call.exec env { Call.run env w₀ calls with timestamp := ts } c = .ok w')
    (hfee : (Call.run env w₀ calls).factory.feeTo ≠ 0)
    (hp : (Call.run env w₀ calls).pair self = some p) (hk : p.kLast ≠ 0) :
    ∃ L, Charges { Call.run env w₀ calls with timestamp := ts } self p c w' L ∧
      (Nat.sqrt p.kLast < Nat.sqrt (p.reserve0 * p.reserve1) →
        6 * Nat.sqrt (p.reserve0 * p.reserve1) * L ≤
          (((Call.run env w₀ calls).token self).totalSupply + L) *
            (Nat.sqrt (p.reserve0 * p.reserve1) - Nat.sqrt p.kLast)) ∧
      (Nat.sqrt (p.reserve0 * p.reserve1) ≤ Nat.sqrt p.kLast → L = 0) ∧
      Nat.sqrt p.kLast * (((Call.run env w₀ calls).token self).totalSupply + L) ≤
        Nat.sqrt (p.reserve0 * p.reserve1) * ((Call.run env w₀ calls).token self).totalSupply := by
  obtain ⟨p', h⟩ := run_recorded hd hf calls
  obtain rfl : p = p' := Option.some.inj (hp.symm.trans h.pair)
  exact ⟨_, (h.at_time ts).charges hd hc hx hfee hk, protocolFee_bounded h.kLast_le⟩

/-- The pair of tokens 4 and 5 with more in the hands of account 7, who sets the
fee recipient. -/
def richWorld : World :=
  { freshWorld with token := fun a => if a = 6 then .initial else issued .initial 7 1000000000 }

theorem richWorld_fresh : Fresh 6 4 5 richWorld where
  pair := rfl
  shares := rfl
  conserved0 := ArkSwapERC20.initial_conserved.issued (by decide)
  conserved1 := ArkSwapERC20.initial_conserved.issued (by decide)

def depositBoth (ts value : Nat) : List (Nat × Call 6) :=
  [(ts, .pay firstToken holder 6 value), (ts, .pay secondToken holder 6 value)]

def feeOnDeposit : List (Nat × Call 6) :=
  (1, .setFeeTo 7 9) :: depositBoth 1 100000000 ++ [(1, .mint 7 7)]

def largeSwap : List (Nat × Call 6) :=
  [(2, .pay secondToken holder 6 50000000), (2, .swap 7 33266599 0 8 none)]

theorem grownPool_fee :
    ∃ (p : ArkSwapPair) (w' : World) (L : Nat),
      Charges { Call.run plainEnv richWorld (feeOnDeposit ++ largeSwap ++ depositBoth 3 100000000)
        with timestamp := 3 } 6 p (.mint 7 7) w' L ∧
      Nat.sqrt p.kLast * (((Call.run plainEnv richWorld
          (feeOnDeposit ++ largeSwap ++ depositBoth 3 100000000)).token 6).totalSupply + L) ≤
        Nat.sqrt (p.reserve0 * p.reserve1) * ((Call.run plainEnv richWorld
          (feeOnDeposit ++ largeSwap ++ depositBoth 3 100000000)).token 6).totalSupply := by
  have hok : (Call.exec plainEnv { Call.run plainEnv richWorld
      (feeOnDeposit ++ largeSwap ++ depositBoth 3 100000000) with timestamp := 3 }
      (.mint 7 7 : Call 6)).isOk = true := by decide +kernel
  obtain ⟨w', hw'⟩ := exists_ok hok
  obtain ⟨p, hp⟩ := run_recorded plainEnv_deployed richWorld_fresh
    (feeOnDeposit ++ largeSwap ++ depositBoth 3 100000000)
  have hk : (((Call.run plainEnv richWorld
      (feeOnDeposit ++ largeSwap ++ depositBoth 3 100000000)).pair 6).map ArkSwapPair.kLast) =
    some 10000000000000000 := by decide +kernel
  rw [hp.pair] at hk
  obtain ⟨L, hL, -, -, hworth⟩ := protocol_fee_bounded plainEnv_deployed richWorld_fresh
    (feeOnDeposit ++ largeSwap ++ depositBoth 3 100000000) 3 rfl hw' (by decide +kernel) hp.pair
    (by rw [Option.some.inj hk]; decide)
  exact ⟨p, w', L, hL, hworth⟩

end ArkSwap
