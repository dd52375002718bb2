import ArkSwap.LibrarySpec
import ArkSwap.PairSwap

/-! The library's quote is the exact frontier of the pair's product test. -/

namespace ArkSwap

open Checked ArkSwapPair ArkSwapLibrary

/-- A pool at rest over two standard tokens whose ledgers add up. -/
structure Idle (env : Env) (w : World) (pool : Address) (p : ArkSwapPair) : Prop where
  pair : w.pair pool = some p
  unlocked : p.unlocked = 1
  tokens_ne : p.token0 ≠ p.token1
  standard0 : Standard env p.token0
  standard1 : Standard env p.token1
  conserved0 : (w.token p.token0).Conserved
  conserved1 : (w.token p.token1).Conserved

variable {env : Env} {w : World} {p : ArkSwapPair} {self sender dst : Address}
  {o₀ o₁ b₀ b₁ a o : Nat}

theorem paidOut_balance0 (hne : p.token0 ≠ p.token1) (hd : self ≠ dst) (o₀ o₁ : Nat) :
    (paidOut w self dst p o₀ o₁).balanceOf p.token0 self = w.balanceOf p.token0 self - o₀ := by
  rw [paidOut, World.balanceOf_moved_of_ne _ _ _ _ hne, World.balanceOf, World.moved_token]
  exact Ledger.move_src o₀ hd

theorem paidOut_balance1 (hne : p.token0 ≠ p.token1) (hd : self ≠ dst) (o₀ o₁ : Nat) :
    (paidOut w self dst p o₀ o₁).balanceOf p.token1 self = w.balanceOf p.token1 self - o₁ := by
  rw [paidOut, World.balanceOf, World.moved_token]
  refine (Ledger.move_src o₁ hd).trans ?_
  rw [World.moved_token_of_ne _ _ _ hne.symm]
  rfl

/-- With an input on its balances, a pool accepts a swap exactly if the
product test does. -/
theorem Idle.swap_iff (h : Idle env w self p) (hd : self ≠ dst) (hd₀ : dst ≠ p.token0)
    (hd₁ : dst ≠ p.token1) (hb₀ : w.balanceOf p.token0 self = b₀)
    (hb₁ : w.balanceOf p.token1 self = b₁) (hr₀ : p.reserve0 ≤ b₀) (hr₁ : p.reserve1 ≤ b₁)
    (hf₀ : b₀ ≤ Uint.max112) (hf₁ : b₁ ≤ Uint.max112) (hpos : o₀ > 0 ∨ o₁ > 0)
    (ho₀ : o₀ < p.reserve0) (ho₁ : o₁ < p.reserve1)
    (hin : amountIn (b₀ - o₀) p.reserve0 o₀ > 0 ∨ amountIn (b₁ - o₁) p.reserve1 o₁ > 0) :
    (∃ w', swap env w self sender o₀ o₁ dst none = .ok ((), w')) ↔
      ConstantProduct.Accepts 1000 3 (p.reserve0 * p.reserve1) (b₀ - o₀)
        (amountIn (b₀ - o₀) p.reserve0 o₀) (b₁ - o₁) (amountIn (b₁ - o₁) p.reserve1 o₁) := by
  have hout₀ := paidOut_balance0 (w := w) h.tokens_ne hd o₀ o₁
  have hout₁ := paidOut_balance1 (w := w) h.tokens_ne hd o₀ o₁
  rw [hb₀] at hout₀
  rw [hb₁] at hout₁
  constructor
  · rintro ⟨w', hw'⟩
    obtain ⟨-, -, -, -, -, -, -, w₁, p₁, q, hcall, -, hacc, -⟩ :=
      swap_ok h.standard0 h.standard1 h.pair hw'
    obtain rfl := Except.ok.inj hcall
    have he₀ : (paidOut (w.setPair self { p with unlocked := 0 }) self dst p o₀ o₁).balanceOf
      p.token0 self = b₀ - o₀ := hout₀
    have he₁ : (paidOut (w.setPair self { p with unlocked := 0 }) self dst p o₀ o₁).balanceOf
      p.token1 self = b₁ - o₁ := hout₁
    rwa [he₀, he₁] at hacc
  · intro hacc
    obtain ⟨-, w', hw', -⟩ := swap_defined sender h.pair h.unlocked h.standard0
      h.standard1 h.tokens_ne h.conserved0 h.conserved1 (hr₀.trans hf₀) (hr₁.trans hf₁) hpos ho₀ ho₁
      hd₀ hd₁ (hb₀ ▸ hr₀) (hb₁ ▸ hr₁) hout₀ hout₁ hin hacc ((Nat.sub_le _ _).trans hf₀)
      ((Nat.sub_le _ _).trans hf₁)
    exact ⟨w', hw'⟩

theorem amountIn_paid {r : Nat} (a : Nat) : amountIn (r + a) r 0 = a := by
  unfold amountIn
  split <;> omega

theorem amountIn_unpaid (r o : Nat) : amountIn (r - o) r o = 0 := if_neg (lt_irrefl _)

/-- A pool without surplus that has been sent `a` of one token pays any
amount of the other up to its quote, and nothing above. -/
theorem swap_frontier {tokenIn tokenOut : Address} (h : Idle env w self p)
    (hio : tokenIn = p.token0 ∧ tokenOut = p.token1 ∨ tokenIn = p.token1 ∧ tokenOut = p.token0)
    (hin : w.balanceOf tokenIn self = reserveOf p tokenIn + a)
    (hout : w.balanceOf tokenOut self = reserveOf p tokenOut)
    (hr : 0 < reserveOf p tokenIn) (ha : 0 < a) (hfit : reserveOf p tokenIn + a ≤ Uint.max112)
    (hfit' : reserveOf p tokenOut ≤ Uint.max112) (ho : 0 < o) (hlt : o < reserveOf p tokenOut)
    (hd : dst ≠ self) (hd₀ : dst ≠ tokenIn) (hd₁ : dst ≠ tokenOut) :
    (∃ w', swap env w self sender (if tokenIn = p.token0 then 0 else o)
        (if tokenIn = p.token0 then o else 0) dst none = .ok ((), w')) ↔
      ∃ quote, getAmountOut a (reserveOf p tokenIn) (reserveOf p tokenOut) = .ok quote ∧
        o ≤ quote := by
  have hquote : (∃ quote, getAmountOut a (reserveOf p tokenIn) (reserveOf p tokenOut) = .ok quote ∧
      o ≤ quote) ↔
      o ≤ ConstantProduct.amountOut 1000 3 a (reserveOf p tokenIn) (reserveOf p tokenOut) := by
    constructor
    · rintro ⟨quote, hq, hle⟩
      obtain ⟨-, -, -, rfl⟩ := getAmountOut_ok hq
      exact hle
    · intro hle
      exact ⟨_, getAmountOut_eq_ok.mpr ⟨ha, hr, ho.trans hlt, .of_max112 hfit hfit', rfl⟩, hle⟩
  rw [hquote, ← ConstantProduct.accepts_iff_le_amountOut (by norm_num) (by norm_num) hr hlt.le]
  rcases hio with ⟨rfl, rfl⟩ | ⟨rfl, rfl⟩
  · have r₀ : reserveOf p p.token0 = p.reserve0 := if_pos rfl
    have r₁ : reserveOf p p.token1 = p.reserve1 := if_neg h.tokens_ne.symm
    rw [r₀] at hin hr hfit ⊢
    rw [r₁] at hout hfit' hlt ⊢
    rw [if_pos rfl, if_pos rfl, h.swap_iff hd.symm hd₀ hd₁ hin hout (Nat.le_add_right _ _) le_rfl
      hfit hfit' (.inr ho) hr hlt (.inl (by rw [Nat.sub_zero, amountIn_paid]; exact ha)),
      Nat.sub_zero, amountIn_paid, amountIn_unpaid]
  · have r₁ : reserveOf p p.token1 = p.reserve1 := if_neg h.tokens_ne.symm
    have r₀ : reserveOf p p.token0 = p.reserve0 := if_pos rfl
    rw [r₀] at hout hfit' hlt ⊢
    rw [r₁] at hin hr hfit ⊢
    rw [if_neg h.tokens_ne.symm, if_neg h.tokens_ne.symm, h.swap_iff hd.symm hd₁ hd₀ hout hin le_rfl
      (Nat.le_add_right _ _) hfit' hfit (.inl ho) hlt hr
      (.inr (by rw [Nat.sub_zero, amountIn_paid]; exact ha)),
      Nat.sub_zero, amountIn_paid, amountIn_unpaid, Nat.mul_comm p.reserve0]
    exact ⟨fun hacc => hacc.swapped, fun hacc => hacc.swapped⟩

def fundedWorld : World :=
  { freshWorld with
    token := fun a => issued .initial 6 (if a = 4 then 1100 else 1000)
    pair := fun a => if a = 6 then some { ArkSwapPair.initial 4 5 with
      reserve0 := 1000, reserve1 := 1000 } else none }

theorem fundedWorld_idle : Idle plainEnv fundedWorld 6 { ArkSwapPair.initial 4 5 with
    reserve0 := 1000, reserve1 := 1000 } where
  pair := rfl
  unlocked := rfl
  tokens_ne := by decide
  standard0 _ _ _ := rfl
  standard1 _ _ _ := rfl
  conserved0 := ArkSwapERC20.initial_conserved.issued (by decide +kernel)
  conserved1 := ArkSwapERC20.initial_conserved.issued (by decide +kernel)

theorem fundedWorld_frontier :
    (∃ w', swap plainEnv fundedWorld 6 7 0 90 8 none = .ok ((), w')) ∧
      ¬ ∃ w', swap plainEnv fundedWorld 6 7 0 91 8 none = .ok ((), w') := by
  have hquote : getAmountOut 100 1000 1000 = .ok 90 := by decide +kernel
  constructor
  · exact (swap_frontier (a := 100) fundedWorld_idle (.inl ⟨rfl, rfl⟩) (by decide +kernel)
      (by decide +kernel) (by decide) (by decide) (by decide +kernel) (by decide +kernel) (by decide)
      (by decide) (by decide) (by decide) (by decide)).mpr ⟨90, hquote, le_rfl⟩
  · intro h
    obtain ⟨quote, hq, hle⟩ := (swap_frontier (a := 100) fundedWorld_idle (.inl ⟨rfl, rfl⟩)
      (by decide +kernel) (by decide +kernel) (by decide) (by decide) (by decide +kernel)
      (by decide +kernel) (by decide) (by decide) (by decide) (by decide) (by decide)).mp h
    obtain rfl := Except.ok.inj (hquote.symm.trans hq)
    exact absurd hle (by decide)

end ArkSwap
