import ArkSwap.Lib.Run
import ArkSwap.Sdk

/-! The slippage tolerance: what the settings hold after any use of their controls,
and the bounds of a trade that follow from it. -/

namespace ArkSwap

namespace Sdk

def BPS : Int := 10000

def minimumReceived (amountOut slippageBps : Int) : Int :=
  (amountOut * (BPS - slippageBps)).tdiv BPS

def maximumSold (amountIn slippageBps : Int) : Int :=
  (amountIn * (BPS + slippageBps)).tdiv BPS

end Sdk

namespace Web

structure Settings where
  slippageBps : Int
  deadlineMinutes : ℚ
  feeOnTransfer : Bool

def DEFAULT_SETTINGS : Settings :=
  { slippageBps := 50, deadlineMinutes := 20, feeOnTransfer := false }

/-- What the browser has stored: the tolerance as `BigInt` reads it, or nothing when it
throws, and the deadline when it is a finite number. -/
structure Stored where
  slippageBps : Option Int
  deadlineMinutes : Option ℚ
  feeOnTransfer : Bool

def deadlineOr (minutes : Option ℚ) (fallback : ℚ) : ℚ :=
  match minutes with
  | some m => if m > 0 ∧ m ≤ 180 then m else fallback
  | none => fallback

def PRESETS : List Int := [10, 50, 100]

/-- What can happen to the settings: they are read back from the browser, or a control
is used. A typed tolerance arrives rounded to basis points, unless it is no number. -/
inductive Change where
  | hydrate (stored : Option Stored)
  | preset (i : Fin PRESETS.length)
  | slippage (bps : Option Int)
  | deadline (minutes : Option ℚ)
  | feeOnTransfer (on : Bool)
  | reset

def Settings.hydrate (settings : Settings) (stored : Option Stored) : Settings :=
  match stored with
  | none => settings
  | some stored =>
      match stored.slippageBps with
      | none => settings
      | some bps =>
          { slippageBps := if bps > 0 ∧ bps ≤ 5000 then bps else DEFAULT_SETTINGS.slippageBps
            deadlineMinutes := deadlineOr stored.deadlineMinutes DEFAULT_SETTINGS.deadlineMinutes
            feeOnTransfer := stored.feeOnTransfer }

def Settings.change (settings : Settings) : Change → Settings
  | .hydrate stored => settings.hydrate stored
  | .preset i => { settings with slippageBps := PRESETS.get i }
  | .slippage none => settings
  | .slippage (some bps) =>
      if bps ≤ 0 ∨ bps > 5000 then settings else { settings with slippageBps := bps }
  | .deadline minutes =>
      { settings with deadlineMinutes := deadlineOr minutes settings.deadlineMinutes }
  | .feeOnTransfer on => { settings with feeOnTransfer := on }
  | .reset => DEFAULT_SETTINGS

section Tolerance

variable {settings : Settings}

def Settings.Tolerant (settings : Settings) : Prop :=
  1 ≤ settings.slippageBps ∧ settings.slippageBps ≤ 5000

theorem default_tolerant : DEFAULT_SETTINGS.Tolerant := by
  constructor <;> decide

theorem hydrate_tolerant (h : settings.Tolerant) (stored : Option Stored) :
    (settings.hydrate stored).Tolerant := by
  rcases stored with _ | ⟨_ | bps, minutes, on⟩
  · exact h
  · exact h
  · unfold Settings.Tolerant Settings.hydrate DEFAULT_SETTINGS
    dsimp only
    split <;> omega

theorem change_tolerant (settings : Settings) (change : Change) (h : settings.Tolerant) :
    (settings.change change).Tolerant := by
  cases change with
  | hydrate stored => exact hydrate_tolerant h stored
  | preset i =>
    have hpresets : ∀ i : Fin PRESETS.length, 1 ≤ PRESETS.get i ∧ PRESETS.get i ≤ 5000 := by decide
    exact hpresets i
  | slippage bps =>
    rcases bps with _ | bps
    · exact h
    · rw [Settings.change]
      split
      · exact h
      · unfold Settings.Tolerant
        dsimp only
        omega
  | deadline minutes => exact h
  | feeOnTransfer on => exact h
  | reset => exact default_tolerant

/-- What the settings can be after any changes. -/
def Reached (settings : Settings) : Prop :=
  ∃ changes, settings = Run.run Settings.change DEFAULT_SETTINGS changes

theorem Reached.tolerant (h : Reached settings) : settings.Tolerant := by
  obtain ⟨changes, rfl⟩ := h
  exact Run.run_inv Settings.Tolerant change_tolerant default_tolerant changes

end Tolerance

end Web

section Bounds

open Sdk

variable {amount bps : Int}

theorem minimumReceived_eq (ha : 0 ≤ amount) (hbps : bps ≤ 5000) :
    minimumReceived amount bps = amount * (10000 - bps) / 10000 :=
  Int.tdiv_eq_ediv_of_nonneg (mul_nonneg ha (by unfold BPS; omega))

theorem minimumReceived_le (ha : 0 ≤ amount) (hbps : 0 ≤ bps ∧ bps ≤ 5000) :
    minimumReceived amount bps ≤ amount := by
  rw [minimumReceived_eq ha hbps.2]
  refine Int.ediv_le_of_le_mul (by decide) ?_
  have hle : amount * (10000 - bps) ≤ amount * 10000 :=
    mul_le_mul_of_nonneg_left (by omega) ha
  exact hle

/-- Rounded down, a bound is lost exactly on an amount of one unit. -/
theorem minimumReceived_pos_iff (ha : 0 < amount) (hbps : 1 ≤ bps ∧ bps ≤ 5000) :
    0 < minimumReceived amount bps ↔ 2 ≤ amount := by
  rw [minimumReceived_eq ha.le hbps.2, Int.lt_iff_add_one_le,
    Int.le_ediv_iff_mul_le (by decide : (0 : Int) < 10000)]
  constructor
  · intro hle
    by_contra hlt
    obtain rfl : amount = 1 := by omega
    omega
  · intro htwo
    have hle : 2 * (10000 - bps) ≤ amount * (10000 - bps) :=
      mul_le_mul_of_nonneg_right htwo (by omega)
    omega

theorem le_maximumSold (ha : 0 ≤ amount) (hbps : 0 ≤ bps) : amount ≤ maximumSold amount bps := by
  unfold maximumSold BPS
  rw [Int.tdiv_eq_ediv_of_nonneg (mul_nonneg ha (by omega))]
  refine Int.le_ediv_of_mul_le (by decide) ?_
  exact mul_le_mul_of_nonneg_left (by omega) ha

end Bounds

end ArkSwap
