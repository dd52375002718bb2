import ArkSwap.RouterQuote

/-! The quotes of the library against each other: exact-output quotes round
against the trader by at most one unit, and splitting a trade never pays. -/

namespace ArkSwap

open Checked

namespace ArkSwapLibrary

variable {env : Env} {w : World} {r R : Nat}

theorem getAmountIn_covers {x x' y z : Nat} (hin : getAmountIn y r R = .ok x) (hle : x ≤ x')
    (hout : getAmountOut x' r R = .ok z) : y ≤ z := by
  obtain ⟨-, -, hr, hlt, hpays⟩ := getAmountIn_ok hin
  obtain ⟨-, -, -, rfl⟩ := getAmountOut_ok hout
  exact (ConstantProduct.le_amountOut_iff (by norm_num) hr).mpr (hpays.mono hle hlt.le)

theorem getAmountIn_le {x a y z : Nat} (hin : getAmountIn y r R = .ok x)
    (hout : getAmountOut a r R = .ok z) (hle : y ≤ z) : x ≤ a + 1 := by
  obtain ⟨-, hr, hlt, -, rfl⟩ := getAmountIn_eq_ok.mp hin
  obtain ⟨-, -, -, rfl⟩ := getAmountOut_ok hout
  have hpays := (ConstantProduct.le_amountOut_iff (by norm_num) hr).mp hle
  exact Nat.succ_le_succ (hpays.quotient_le hlt.le)

theorem amountsIn_covers {path : List Address} {x x' y : Nat} {ins outs : List Nat}
    (hin : amountsIn env w y path = .ok (x, ins)) (hle : x ≤ x')
    (hout : amountsOut env w x' path = .ok outs) : ∃ z, outs.getLast? = some z ∧ y ≤ z := by
  induction path generalizing x x' ins outs with
  | nil =>
    obtain ⟨rfl, -⟩ := Prod.mk.inj (Except.ok.inj hin)
    obtain rfl := Except.ok.inj hout
    exact ⟨x', rfl, hle⟩
  | cons a path ih =>
    cases path with
    | nil =>
      obtain ⟨rfl, -⟩ := Prod.mk.inj (Except.ok.inj hin)
      obtain rfl := Except.ok.inj hout
      exact ⟨x', rfl, hle⟩
    | cons b path =>
      simp only [amountsIn, bind_eq_ok, pure_eq_ok, Except.ok.injEq, Prod.mk.injEq] at hin
      obtain ⟨⟨m, ms⟩, hrest, ⟨r, R⟩, hres, _, hm, rfl, rfl⟩ := hin
      simp only [amountsOut, bind_eq_ok, pure_eq_ok, Except.ok.injEq] at hout
      obtain ⟨_, hres', m', hm', rest, hrest', rfl⟩ := hout
      obtain ⟨rfl, rfl⟩ := Prod.mk.inj (Except.ok.inj (hres.symm.trans hres'))
      obtain ⟨z, hz, hyz⟩ := ih hrest (getAmountIn_covers hm hle hm') hrest'
      have hne : rest ≠ [] := List.getLast?_isSome.mp (by rw [hz]; rfl)
      refine ⟨z, ?_, hyz⟩
      rw [List.getLast?_cons_of_ne_nil hne, hz]

/-- Exact-output quotes are never short and at most one unit dear, for one
pool and along every path; a quote grows with its input and leaves some of the
reserve. -/
theorem exact_output_rounding :
    (∀ r R out, 0 < r → 0 < out → out < R → InFits out r R →
      ∃ x, getAmountIn out r R = .ok x ∧
        (OutFits x r R → ∃ y, getAmountOut x r R = .ok y ∧ out ≤ y) ∧
        ∀ a y, 0 < a → getAmountOut a r R = .ok y → out ≤ y → x ≤ a + 1) ∧
    (∀ r R a b, 0 < r → 0 < R → 0 < a → a ≤ b → OutFits b r R →
      ∃ y z, getAmountOut a r R = .ok y ∧ getAmountOut b r R = .ok z ∧ y ≤ z ∧ z < R) ∧
    ∀ env w path out ins x outs, getAmountsIn env w out path = .ok ins → ins.head? = some x →
      getAmountsOut env w x path = .ok outs → ∃ y, outs.getLast? = some y ∧ out ≤ y := by
  refine ⟨fun r R out hr hout hlt hfit => ?_, fun r R a b hr hR ha hab hfit => ?_, ?_⟩
  · have hin := getAmountIn_eq_ok.mpr ⟨hout, hr, hlt, hfit, rfl⟩
    refine ⟨_, hin, fun hof => ?_, fun a y _ hy hle => getAmountIn_le hin hy hle⟩
    have hy := getAmountOut_eq_ok.mpr ⟨Nat.succ_pos _, hr, hout.trans hlt, hof, rfl⟩
    exact ⟨_, hy, getAmountIn_covers hin (le_refl _) hy⟩
  · exact ⟨_, _, getAmountOut_eq_ok.mpr ⟨ha, hr, hR, hfit.mono hab, rfl⟩,
      getAmountOut_eq_ok.mpr ⟨ha.trans_le hab, hr, hR, hfit, rfl⟩,
      ConstantProduct.amountOut_mono (by norm_num) hr hR hab,
      ConstantProduct.amountOut_lt (by norm_num) hr hR⟩
  · intro env w path out ins x outs hin hx hout
    simp only [getAmountsIn, bind_eq_ok, require_eq_ok, pure_eq_ok, Except.ok.injEq] at hin
    obtain ⟨-, -, ⟨x', amounts⟩, hin, rfl⟩ := hin
    obtain rfl := Option.some.inj hx
    rw [getAmountsOut, bind_eq_ok] at hout
    obtain ⟨_, -, hout⟩ := hout
    exact amountsIn_covers hin (le_refl _) hout

theorem market_rounding :
    (∃ x, getAmountIn 100 1000 1000 = .ok x ∧
      (OutFits x 1000 1000 → ∃ y, getAmountOut x 1000 1000 = .ok y ∧ 100 ≤ y) ∧
      ∀ a y, 0 < a → getAmountOut a 1000 1000 = .ok y → 100 ≤ y → x ≤ a + 1) ∧
    (∃ y z, getAmountOut 100 1000 1000 = .ok y ∧ getAmountOut 300 1000 1000 = .ok z ∧ y ≤ z ∧
      z < 1000) ∧
    ∃ y, [820, 1287, 2001].getLast? = some y ∧ 2000 ≤ y := by
  obtain ⟨hone, hmono, hpath⟩ := exact_output_rounding
  refine ⟨hone 1000 1000 100 (by decide) (by decide) (by decide) (by decide),
    hmono 1000 1000 100 300 (by decide) (by decide) (by decide) (by decide) (by decide),
    hpath hashEnv market [4, 5, 8] 2000 [820, 1286, 2000] 820 [820, 1287, 2001] ?_ rfl ?_⟩
  · decide +kernel
  · decide +kernel

/-- Trades made one after another on one pool, each at the quote on the
reserves the one before left: what they pay out together. -/
def splitAmountOut : Nat → Nat → List Nat → Except String Nat
  | _, _, [] => .ok 0
  | reserveIn, reserveOut, amountIn :: inputs => do
      let amountOut ← getAmountOut amountIn reserveIn reserveOut
      let total ← splitAmountOut (reserveIn + amountIn) (reserveOut - amountOut) inputs
      return amountOut + total

theorem splitAmountOut_ok {inputs : List Nat} {total : Nat}
    (h : splitAmountOut r R inputs = .ok total) :
    total = ConstantProduct.totalOut 1000 3 r R inputs := by
  induction inputs generalizing r R total with
  | nil => exact (Except.ok.inj h).symm
  | cons a inputs ih =>
    simp only [splitAmountOut, bind_eq_ok, pure_eq_ok, Except.ok.injEq] at h
    obtain ⟨y, hy, rest, hrest, rfl⟩ := h
    obtain ⟨-, -, -, rfl⟩ := getAmountOut_ok hy
    rw [ih hrest, ConstantProduct.totalOut]

theorem splitAmountOut_defined {inputs : List Nat} (hr : 0 < r) (hR : 0 < R)
    (hpos : ∀ a ∈ inputs, 0 < a) (hfit : r + inputs.sum ≤ Uint.max112) (hR' : R ≤ Uint.max112) :
    ∃ total, splitAmountOut r R inputs = .ok total := by
  induction inputs generalizing r R with
  | nil => exact ⟨0, rfl⟩
  | cons a inputs ih =>
    rw [List.sum_cons] at hfit
    have ha := hpos a List.mem_cons_self
    have hy := getAmountOut_eq_ok.mpr ⟨ha, hr, hR, .of_max112 (by omega) hR', rfl⟩
    have hlt : ConstantProduct.amountOut 1000 3 a r R < R :=
      ConstantProduct.amountOut_lt (by norm_num) hr hR
    obtain ⟨total, htotal⟩ := ih (Nat.add_pos_left hr a) (Nat.sub_pos_of_lt hlt)
      (fun b hb => hpos b (List.mem_cons_of_mem a hb)) (by omega) ((Nat.sub_le _ _).trans hR')
    exact ⟨_, by rw [splitAmountOut, hy, ok_bind, htotal]; rfl⟩

/-- However an input is split, its parts never buy more than the whole. -/
theorem splitting_never_pays (hr : 0 < r) (hR : 0 < R) (inputs : List Nat)
    (hpos : ∀ a ∈ inputs, 0 < a) :
    (∀ total whole, splitAmountOut r R inputs = .ok total →
      getAmountOut inputs.sum r R = .ok whole → total ≤ whole) ∧
    (inputs ≠ [] → r + inputs.sum ≤ Uint.max112 → R ≤ Uint.max112 →
      ∃ total whole, splitAmountOut r R inputs = .ok total ∧
        getAmountOut inputs.sum r R = .ok whole) := by
  refine ⟨fun total whole ht hw => ?_, fun hne hfit hR' => ?_⟩
  · obtain rfl := splitAmountOut_ok ht
    obtain ⟨-, -, -, rfl⟩ := getAmountOut_ok hw
    exact ConstantProduct.totalOut_le (by norm_num) hr hR inputs
  · obtain ⟨total, ht⟩ := splitAmountOut_defined hr hR hpos hfit hR'
    obtain ⟨a, rest, rfl⟩ := List.exists_cons_of_ne_nil hne
    have hsum : 0 < (a :: rest).sum := by
      have := hpos a List.mem_cons_self
      rw [List.sum_cons]
      omega
    exact ⟨total, _, ht, getAmountOut_eq_ok.mpr ⟨hsum, hr, hR, .of_max112 hfit hR', rfl⟩⟩

theorem thirds_never_pay : 229 ≤ 230 ∧
    ∃ total whole, splitAmountOut 1000 1000 [100, 100, 100] = .ok total ∧
      getAmountOut [100, 100, 100].sum 1000 1000 = .ok whole := by
  obtain ⟨hle, hdef⟩ := splitting_never_pays (r := 1000) (R := 1000) (by decide) (by decide)
    [100, 100, 100] (by decide)
  exact ⟨hle 229 230 (by decide) (by decide), hdef (by decide) (by decide) (by decide)⟩

end ArkSwapLibrary

end ArkSwap
