import ArkSwap.PairFee

/-! The growth the protocol fee is charged on, measured against the growth of
the pool while the fee was on. -/

namespace ArkSwap

open Checked ArkSwapPair

variable {env : Env} {self t₀ t₁ : Address} {w w' w₀ : World} {p : ArkSwapPair}

/-- The growth of the root since the last liquidity event, by whether there was
a fee recipient when it happened. -/
structure Meter where
  on : Nat
  off : Nat
  deriving DecidableEq

namespace Meter

def root (w : World) (self : Address) : Nat :=
  match w.pair self with
  | some p => Nat.sqrt (p.reserve0 * p.reserve1)
  | none => 0

def read (m : Meter) (w w' : World) (self : Address) : Meter :=
  if w'.factory.feeTo = 0 then { m with off := m.off + (root w' self - root w self) }
  else { m with on := m.on + (root w' self - root w self) }

/-- A transaction that fails is not measured, a liquidity event starts anew. -/
def observe (env : Env) (self : Address) (m : Meter) (w : World) (c : Nat × Call self) : Meter :=
  match Call.exec env { w with timestamp := c.1 } c.2 with
  | .ok w' => if c.2.Liquidity then ⟨0, 0⟩ else m.read w w' self
  | .error _ => m

abbrev run (env : Env) (w : World) (calls : List (Nat × Call self)) : World × Meter :=
  Run.run (Run.observed (Call.step env) (observe env self)) (w, ⟨0, 0⟩) calls

end Meter

def chargedGrowth (w : World) (self : Address) : Nat :=
  match w.pair self with
  | some p => if w.factory.feeTo = 0 ∨ p.kLast = 0 then 0
      else Nat.sqrt (p.reserve0 * p.reserve1) - Nat.sqrt p.kLast
  | none => 0

structure Metered (pool t₀ t₁ : Address) (w : World) (m : Meter) (p : ArkSwapPair) : Prop
    extends Recorded pool t₀ t₁ w p where
  grown : p.kLast = 0 ∨ Nat.sqrt p.kLast + (m.on + m.off) = Nat.sqrt (p.reserve0 * p.reserve1)

namespace Metered

variable {m : Meter}

theorem root_eq (hp : w.pair self = some p) :
    Meter.root w self = Nat.sqrt (p.reserve0 * p.reserve1) := by
  rw [Meter.root, hp]

theorem step (hd : Deployed env self t₀ t₁) (h : Metered self t₀ t₁ w m p)
    (c : Nat × Call self) :
    ∃ q, Metered self t₀ t₁ (Call.step env w c) (Meter.observe env self m w c) q := by
  unfold Call.step Meter.observe
  cases hx : Call.exec env { w with timestamp := c.1 } c.2 with
  | error e => exact ⟨p, h.toRecorded.at_time c.1, h.grown⟩
  | ok w' =>
    obtain ⟨q, hq⟩ := (h.toRecorded.at_time c.1).exec hd hx
    refine ⟨q, hq, ?_⟩
    obtain ⟨q', hq', hcase⟩ := (h.toSound.at_time c.1).exec_kLast hd hx
    obtain rfl : q = q' := Option.some.inj (hq.pair.symm.trans hq'.pair)
    obtain ⟨hl, hk, -⟩ | ⟨hl, hk, hprod, -⟩ := hcase
    · simp only [hl, if_true]
      by_cases hfee : w.factory.feeTo = 0
      · exact .inl (hk.trans (if_pos hfee))
      · exact .inr (by rw [hk, recordedK, if_neg hfee]; rfl)
    · have hroot := Nat.sqrt_le_sqrt hprod
      simp only [hl, Bool.false_eq_true, if_false]
      rw [hk]
      refine h.grown.imp_right fun hg => ?_
      unfold Meter.read
      rw [root_eq h.pair, root_eq hq.pair]
      split_ifs
      · simp only
        omega
      · simp only
        omega

theorem charged_iff (h : Metered self t₀ t₁ w m p) :
    chargedGrowth w self ≤ m.on ↔ w.factory.feeTo = 0 ∨ p.kLast = 0 ∨ m.off = 0 := by
  rw [chargedGrowth, h.pair]
  by_cases hc : w.factory.feeTo = 0 ∨ p.kLast = 0
  · simp only [if_pos hc]
    exact iff_of_true (Nat.zero_le _) (by tauto)
  · have hg := h.grown.resolve_left fun hk => hc (.inr hk)
    simp only [if_neg hc]
    constructor
    · intro hle
      exact .inr (.inr (by omega))
    · rintro (hf | hk | hoff)
      · exact (hc (.inl hf)).elim
      · exact (hc (.inr hk)).elim
      · omega

end Metered

theorem run_metered (hd : Deployed env self t₀ t₁) (hf : Fresh self t₀ t₁ w₀)
    (calls : List (Nat × Call self)) :
    ∃ p, Metered self t₀ t₁ (Call.run env w₀ calls) (Meter.run env w₀ calls).2 p := by
  have hrun : ∃ p, Metered self t₀ t₁ (Meter.run env w₀ calls).1 (Meter.run env w₀ calls).2 p := by
    refine Run.run_inv (fun s : World × Meter => ∃ p, Metered self t₀ t₁ s.1 s.2 p)
      (fun s c ⟨_, h⟩ => h.step hd c) ?_ calls
    obtain ⟨p, hp⟩ := hf.recorded hd
    have hk : p.kLast = 0 := by rw [Option.some.inj (hp.pair.symm.trans hf.pair)]; rfl
    exact ⟨p, hp, .inl hk⟩
  rwa [Run.run_observed_fst] at hrun

/-- After every run, a mint or burn is charged only on growth that happened
under a fee recipient since the last liquidity event, exactly if there is none
now, no product is on record, or the root has not grown without one since. -/
theorem fee_growth_iff (hd : Deployed env self t₀ t₁) (hf : Fresh self t₀ t₁ w₀)
    (calls : List (Nat × Call self)) (hp : (Call.run env w₀ calls).pair self = some p) :
    chargedGrowth (Call.run env w₀ calls) self ≤ (Meter.run env w₀ calls).2.on ↔
      (Call.run env w₀ calls).factory.feeTo = 0 ∨ p.kLast = 0 ∨
        (Meter.run env w₀ calls).2.off = 0 := by
  obtain ⟨p', h⟩ := run_metered hd hf calls
  obtain rfl : p = p' := Option.some.inj (hp.symm.trans h.pair)
  exact h.charged_iff

theorem steadyFee_growth :
    chargedGrowth (Call.run plainEnv richWorld (feeOnDeposit ++ largeSwap)) 6 ≤
      (Meter.run plainEnv richWorld (feeOnDeposit ++ largeSwap)).2.on := by
  obtain ⟨p, hp⟩ := run_recorded plainEnv_deployed richWorld_fresh (feeOnDeposit ++ largeSwap)
  exact (fee_growth_iff plainEnv_deployed richWorld_fresh _ hp.pair).mpr
    (.inr (.inr (by decide +kernel)))

def switchedFee : List (Nat × Call 6) :=
  feeOnDeposit ++ (2, .setFeeTo 7 0) :: largeSwap ++ (3, .setFeeTo 7 9) :: depositBoth 3 100000000

/-- All of the growth happened without a fee recipient, and all of it is charged. -/
theorem switchedFee_charged :
    (Meter.run plainEnv richWorld switchedFee).2 = ⟨0, 50038⟩ ∧
      chargedGrowth (Call.run plainEnv richWorld switchedFee) 6 = 50038 ∧
      (Call.exec plainEnv { Call.run plainEnv richWorld switchedFee with timestamp := 3 }
        (.mint 7 7 : Call 6)).map (fun w' => w'.balanceOf 6 9) = .ok 8336 :=
  ⟨by decide +kernel, by decide +kernel, by decide +kernel⟩

end ArkSwap
