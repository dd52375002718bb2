import ArkSwap.NetworkCheck
import ArkSwap.PairReentrancy

/-! The Swap events a pair emits and the direction the indexer gives them: it
looks at what came in only, so a loan repaid in the token that was lent is taken
for a trade. -/

namespace ArkSwap.GoInternal

open Checked

def RecordsSwap (e : Event) (l : Log) (ev : SwapEvent) : Prop :=
  l.topic = some .swap ∧ decodeSwap l = some ev ∧
    e = .swap l.address ev.sender ev.amount0In ev.amount1In ev.amount0Out ev.amount1Out ev.recipient

def OneWay (amountIn amountBack otherIn amountOut : Nat) : Prop :=
  0 < amountIn ∧ amountBack = 0 ∧ otherIn = 0 ∧ 0 < amountOut

/-- Only one-way trades have a direction; any other row has no tokens, no
amounts and no value. -/
structure Directed (s : Swap) : Prop where
  zeroToOne : s.direction = .zeroToOne →
    OneWay s.amount0In s.amount0Out s.amount1In s.amount1Out
  oneToZero : s.direction = .oneToZero →
    OneWay s.amount1In s.amount1Out s.amount0In s.amount0Out
  unknown : ¬OneWay s.amount0In s.amount0Out s.amount1In s.amount1Out →
    ¬OneWay s.amount1In s.amount1Out s.amount0In s.amount0Out →
    s.direction = .unknown ∧ s.tokenInAddress = none ∧ s.tokenOutAddress = none ∧
      s.amountIn = none ∧ s.amountOut = none ∧ s.amountUSD = none

namespace Indexer

variable {cfg : Config} {header : Block} {ix : Indexer} {p : Pair} {l : Log} {ev : SwapEvent}
variable {s : Swap}

theorem valuedSwap_cases (ix : Indexer) (s : Swap) (p : Pair) :
    0 < s.amount0In ∧ s.amount1In = 0 ∧ (ix.valuedSwap s p).direction = .zeroToOne ∨
      0 < s.amount1In ∧ s.amount0In = 0 ∧ (ix.valuedSwap s p).direction = .oneToZero ∨
      (s.amount0In = 0 ↔ s.amount1In = 0) ∧ (ix.valuedSwap s p).direction = .unknown ∧
        (ix.valuedSwap s p).tokenInAddress = none ∧ (ix.valuedSwap s p).tokenOutAddress = none ∧
        (ix.valuedSwap s p).amountIn = none ∧ (ix.valuedSwap s p).amountOut = none ∧
        (ix.valuedSwap s p).amountUSD = none := by
  rw [valuedSwap, normalizeSwap]
  by_cases h₀ : 0 < s.amount0In ∧ ¬0 < s.amount1In
  · rw [if_pos h₀]
    exact Or.inl ⟨h₀.1, Nat.eq_zero_of_not_pos h₀.2, rfl⟩
  · rw [if_neg h₀]
    by_cases h₁ : 0 < s.amount1In ∧ ¬0 < s.amount0In
    · rw [if_pos h₁]
      exact Or.inr (Or.inl ⟨h₁.1, Nat.eq_zero_of_not_pos h₁.2, rfl⟩)
    · rw [if_neg h₁]
      exact Or.inr (Or.inr ⟨by omega, rfl, rfl, rfl, rfl, rfl, rfl⟩)

theorem valuedSwap_amounts (ix : Indexer) (s : Swap) (p : Pair) :
    (ix.valuedSwap s p).amount0In = s.amount0In ∧ (ix.valuedSwap s p).amount1In = s.amount1In ∧
      (ix.valuedSwap s p).amount0Out = s.amount0Out ∧
      (ix.valuedSwap s p).amount1Out = s.amount1Out := by
  rw [valuedSwap, normalizeSwap]
  split
  · exact ⟨rfl, rfl, rfl, rfl⟩
  · split <;> exact ⟨rfl, rfl, rfl, rfl⟩

theorem directed_iff (hout : 0 < s.amount0Out ∨ 0 < s.amount1Out) :
    Directed (ix.valuedSwap s p) ↔
      (0 < s.amount0In → s.amount1In = 0 → s.amount0Out = 0) ∧
        (0 < s.amount1In → s.amount0In = 0 → s.amount1Out = 0) := by
  obtain ⟨hi₀, hi₁, ho₀, ho₁⟩ := valuedSwap_amounts ix s p
  constructor
  · intro h
    refine ⟨fun hpos hzero => ?_, fun hpos hzero => ?_⟩
    · rcases valuedSwap_cases ix s p with ⟨-, -, hdir⟩ | ⟨hpos', -, -⟩ | ⟨hiff, -⟩
      · have hone := (h.zeroToOne hdir).2.1
        rwa [ho₀] at hone
      · omega
      · omega
    · rcases valuedSwap_cases ix s p with ⟨hpos', -, -⟩ | ⟨-, -, hdir⟩ | ⟨hiff, -⟩
      · omega
      · have hone := (h.oneToZero hdir).2.1
        rwa [ho₁] at hone
      · omega
  · rintro ⟨h₀, h₁⟩
    have hraw : ∀ {a b c d : Nat}, OneWay a b c d ↔ 0 < a ∧ b = 0 ∧ c = 0 ∧ 0 < d := Iff.rfl
    rcases valuedSwap_cases ix s p with ⟨hpos, hzero, hdir⟩ | ⟨hpos, hzero, hdir⟩ |
      ⟨hiff, hdir, hnil⟩
    · have hback := h₀ hpos hzero
      have hone : OneWay s.amount0In s.amount0Out s.amount1In s.amount1Out :=
        ⟨hpos, hback, hzero, by omega⟩
      rw [← hi₀, ← ho₀, ← hi₁, ← ho₁] at hone
      exact ⟨fun _ => hone, fun hdir' => by simp [hdir] at hdir', fun hnot => (hnot hone).elim⟩
    · have hback := h₁ hpos hzero
      have hone : OneWay s.amount1In s.amount1Out s.amount0In s.amount0Out :=
        ⟨hpos, hback, hzero, by omega⟩
      rw [← hi₀, ← ho₀, ← hi₁, ← ho₁] at hone
      exact ⟨fun hdir' => by simp [hdir] at hdir', fun _ => hone, fun _ hnot => (hnot hone).elim⟩
    · exact ⟨fun hdir' => by simp [hdir] at hdir', fun hdir' => by simp [hdir] at hdir',
        fun _ _ => ⟨hdir, hnil⟩⟩

end Indexer

end ArkSwap.GoInternal

namespace ArkSwap.ArkSwapPair

open Checked

variable {env : Env} {w w' : World} {self sender dst : Address} {o₀ o₁ : Nat}
variable {data : Option (World → Except String World)}

theorem swap_emits (h : swap env w self sender o₀ o₁ dst data = .ok ((), w')) :
    ∃ i₀ i₁, w'.logs.getLast? = some (.swap self sender i₀ i₁ o₀ o₁ dst) ∧ (0 < i₀ ∨ 0 < i₁) ∧
      (0 < o₀ ∨ 0 < o₁) := by
  rw [swap, lock_eq_ok] at h
  obtain ⟨p, w₁, q, -, -, hbody, -, rfl⟩ := h
  simp only [bind_eq_ok, require_eq_ok, pure_eq_ok, Except.ok.injEq, Prod.mk.injEq] at hbody
  obtain ⟨-, hout, p', -, -, -, -, -, w₂, -, w₃, -, w₄, -, -, hin, -, -, q', -, q'', -, -, rfl⟩ := hbody
  exact ⟨_, _, by simp [World.emit, World.setPair], hin, hout⟩

end ArkSwap.ArkSwapPair

open Checked

namespace ArkSwap.GoInternal.Indexer

variable {env : Env} {w w' : World} {self sender dst : Address} {o₀ o₁ : Nat}
variable {data : Option (World → Except String World)} {e : Event}
variable {cfg : Config} {header : Block} {ix : Indexer} {p : Pair} {l : Log} {ev : SwapEvent}

/-- Of every Swap event a pair can emit: the row made of it is directed as it
should be exactly when no token both comes in alone and goes out. -/
theorem emitted_directed_iff
    (h : ArkSwapPair.swap env w self sender o₀ o₁ dst data = .ok ((), w'))
    (hlast : w'.logs.getLast? = some e) (hl : RecordsSwap e l ev) :
    Directed (ix.valuedSwap (swapRow cfg header l ev) p) ↔
      (0 < ev.amount0In → ev.amount1In = 0 → ev.amount0Out = 0) ∧
        (0 < ev.amount1In → ev.amount0In = 0 → ev.amount1Out = 0) := by
  obtain ⟨i₀, i₁, hswap, -, hout⟩ := ArkSwapPair.swap_emits h
  obtain ⟨-, -, rfl⟩ := hl
  have heq := Option.some.inj (hlast.symm.trans hswap)
  simp only [Event.swap.injEq] at heq
  obtain ⟨-, -, -, -, ho₀, ho₁, -⟩ := heq
  refine directed_iff ?_
  rw [swapRow, ho₀, ho₁]
  exact hout

def swapLog (amount0In amount1In amount0Out amount1Out : Word) : Log :=
  { address := 6, topic := some .swap, indexed := [7, 8],
    data := [amount0In, amount1In, amount0Out, amount1Out], blockNumber := 1, txHash := 9, index := 0,
    blockHash := 5 }

def swapLogEvent (amount0In amount1In amount0Out amount1Out : Word) : SwapEvent :=
  { sender := 7, recipient := 8, amount0In := amount0In.val, amount1In := amount1In.val,
    amount0Out := amount0Out.val, amount1Out := amount1Out.val }

def traded : List (Code 6) :=
  [.call (.pay ⟨4, Code.four_ne_pair⟩ ⟨7, Code.seven_ne_pair⟩ 6 2000)]

def forkPair : Pair :=
  createdPair { number := 1, hash := 5, parentHash := 4, timestamp := 1 } Fork.created
    { token0 := 4, token1 := 5, pair := 6, index := 1 }

theorem traded_directed : ∃ w', ArkSwapPair.swap plainEnv
      (Call.run plainEnv freshWorld firstDeposit) 6 7 0 1000 8 (Code.execData plainEnv 8 (some traded)) =
        .ok ((), w') ∧
    Directed ((new Fork.cfg).valuedSwap (swapRow Fork.cfg
      { number := 1, hash := 5, parentHash := 4, timestamp := 1 } (swapLog 2000 0 0 1000)
      (swapLogEvent 2000 0 0 1000)) forkPair) := by
  have hok : (ArkSwapPair.swap plainEnv (Call.run plainEnv freshWorld firstDeposit) 6 7 0 1000 8
      (Code.execData plainEnv 8 (some traded))).isOk = true := by decide +kernel
  have hlogs : (ArkSwapPair.swap plainEnv (Call.run plainEnv freshWorld firstDeposit) 6 7 0 1000 8
      (Code.execData plainEnv 8 (some traded))).toOption.bind (fun r => r.2.logs.getLast?) =
        some (.swap 6 7 2000 0 0 1000 8) := by decide +kernel
  obtain ⟨⟨⟨⟩, w'⟩, hw'⟩ := exists_ok hok
  rw [hw'] at hlogs
  refine ⟨w', hw', (emitted_directed_iff hw' hlogs ⟨rfl, rfl, rfl⟩).mpr ?_⟩
  decide

/-- The loan of token 4 is repaid in token 4: it is stored as a trade of 1010 of
token 4 for none of token 5. -/
theorem repaid_not_directed : ∃ w', ArkSwapPair.swap plainEnv
      (Call.run plainEnv freshWorld firstDeposit) 6 7 1000 0 8
        (Code.execData plainEnv 8 (some Code.repaid)) = .ok ((), w') ∧
    w'.logs.getLast? = some (.swap 6 7 1010 0 1000 0 8) ∧
    RecordsSwap (.swap 6 7 1010 0 1000 0 8) (swapLog 1010 0 1000 0) (swapLogEvent 1010 0 1000 0) ∧
    ((new Fork.cfg).valuedSwap (swapRow Fork.cfg
      { number := 1, hash := 5, parentHash := 4, timestamp := 1 } (swapLog 1010 0 1000 0)
      (swapLogEvent 1010 0 1000 0)) forkPair).direction = .zeroToOne ∧
    ¬Directed ((new Fork.cfg).valuedSwap (swapRow Fork.cfg
      { number := 1, hash := 5, parentHash := 4, timestamp := 1 } (swapLog 1010 0 1000 0)
      (swapLogEvent 1010 0 1000 0)) forkPair) := by
  have hok : (ArkSwapPair.swap plainEnv (Call.run plainEnv freshWorld firstDeposit) 6 7 1000 0 8
      (Code.execData plainEnv 8 (some Code.repaid))).isOk = true := by decide +kernel
  have hlogs : (ArkSwapPair.swap plainEnv (Call.run plainEnv freshWorld firstDeposit) 6 7 1000 0 8
      (Code.execData plainEnv 8 (some Code.repaid))).toOption.bind (fun r => r.2.logs.getLast?) =
        some (.swap 6 7 1010 0 1000 0 8) := by decide +kernel
  obtain ⟨⟨⟨⟩, w'⟩, hw'⟩ := exists_ok hok
  rw [hw'] at hlogs
  refine ⟨w', hw', hlogs, ⟨rfl, rfl, rfl⟩, rfl, fun h => ?_⟩
  exact absurd (h.zeroToOne rfl).2.1 (by decide)

end ArkSwap.GoInternal.Indexer
