import ArkSwap.PairCallbacks

/-! What the calls of a pair report in the log, and that they move no native KASH. -/

namespace ArkSwap

open Checked ArkSwapPair

/-- One world follows another with some events more and the same native KASH. -/
structure Reported (w w' : World) (events : List Event) : Prop where
  logs : w'.logs = w.logs ++ events
  native : w'.native = w.native

namespace Reported

variable {w w' w'' : World} {events events' : List Event}

theorem of_eq (hl : w'.logs = w.logs) (hn : w'.native = w.native) : Reported w w' [] :=
  ⟨by rw [hl, List.append_nil], hn⟩

theorem trans (h : Reported w w' events) (h' : Reported w' w'' events') :
    Reported w w'' (events ++ events') :=
  ⟨by rw [h'.logs, h.logs, List.append_assoc], h'.native.trans h.native⟩

end Reported

variable {env : Env} {w w' : World} {self sender token src dst : Address} {value : Nat}

theorem transfer_reports (h : w.transfer env token src dst value = .ok w') : Reported w w' [] := by
  simp only [World.transfer, bind_eq_ok, pure_eq_ok, Except.ok.injEq] at h
  obtain ⟨-, -, -, -, rfl⟩ := h
  exact .of_eq rfl rfl

theorem safeTransfer_reports (h : safeTransfer env w token src dst value = .ok w') :
    Reported w w' [] := transfer_reports (safeTransfer_eq_ok.mp h)

theorem mint_reports {L : Nat} (h : ArkSwapPair.mint w self sender dst = .ok (L, w')) :
    ∃ q amount0 amount1, w'.pair self = some q ∧ Reported w w'
      [.sync self q.reserve0 q.reserve1, .mint self sender amount0 amount1] := by
  rw [ArkSwapPair.mint, lock_eq_ok] at h
  obtain ⟨p, w₁, q, -, -, hb, hq, rfl⟩ := h
  simp only [bind_eq_ok, require_eq_ok, pure_eq_ok, Except.ok.injEq, Prod.mk.injEq] at hb
  obtain ⟨_, -, a₀, -, a₁, -, _, -, _, -, _, -, lp, -, q', -, q'', -, -, rfl⟩ := hb
  simp only [World.emit_pair, World.setPair_pair, Option.some.injEq] at hq
  subst hq
  refine ⟨_, a₀, a₁, World.setPair_pair _ _ _, ?_, rfl⟩
  simp only [World.emit, World.setPair, World.setToken, List.append_assoc, List.cons_append,
    List.nil_append]

theorem burn_reports {amounts : Nat × Nat}
    (h : ArkSwapPair.burn env w self sender dst = .ok (amounts, w')) :
    ∃ q, w'.pair self = some q ∧ Reported w w'
      [.sync self q.reserve0 q.reserve1, .burn self sender amounts.1 amounts.2 dst] := by
  rw [ArkSwapPair.burn, lock_eq_ok] at h
  obtain ⟨p, w₁, q, -, -, hb, hq, rfl⟩ := h
  simp only [bind_eq_ok, require_eq_ok, pure_eq_ok, Except.ok.injEq, Prod.mk.injEq] at hb
  obtain ⟨_, -, _, -, _, -, _, -, _, -, _, -, _, -, lp, -, w₂, ht₀, w₃, ht₁, q', -, q'', -, rfl,
    rfl⟩ := hb
  have hpaid := (safeTransfer_reports ht₀).trans (safeTransfer_reports ht₁)
  simp only [World.emit_pair, World.setPair_pair, Option.some.injEq] at hq
  subst hq
  refine ⟨_, World.setPair_pair _ _ _, ?_, hpaid.native⟩
  have hlogs : w₃.logs = w.logs := hpaid.logs.trans (List.append_nil _)
  simp only [World.emit, World.setPair, hlogs, List.append_assoc, List.cons_append, List.nil_append]

/-- The events of the callback come first. -/
theorem swap_reports {amount0Out amount1Out : Nat} {data : Option (World → Except String World)}
    (h : ArkSwapPair.swap env w self sender amount0Out amount1Out dst data = .ok ((), w')) :
    ∃ p u w₁ w₂ q amount0In amount1In, w.pair self = some p ∧
      sendOut env (w.setPair self { p with unlocked := 0 }) p.token0 self dst amount0Out = .ok u ∧
      sendOut env u p.token1 self dst amount1Out = .ok w₁ ∧ callback data w₁ = .ok w₂ ∧
      w'.pair self = some q ∧ Reported w₂ w' [.sync self q.reserve0 q.reserve1,
        .swap self sender amount0In amount1In amount0Out amount1Out dst] := by
  rw [ArkSwapPair.swap, lock_eq_ok] at h
  obtain ⟨p, w₃, q, hp, -, hb, hq, rfl⟩ := h
  simp only [bind_eq_ok, require_eq_ok, World.storage_eq_ok, World.setPair_pair,
    Option.some.injEq, pure_eq_ok, Except.ok.injEq, Prod.mk.injEq] at hb
  obtain ⟨_, -, _, rfl, _, -, _, -, u, hu, w₁, hw₁, w₂, hcall, _, -, _, -, p₁, hp₁, q', -, -,
    rfl⟩ := hb
  simp only [World.emit_pair, World.setPair_pair, Option.some.injEq] at hq
  subst hq
  refine ⟨p, u, w₁, w₂, _, amountIn (w₂.balanceOf p.token0 self) p.reserve0 amount0Out,
    amountIn (w₂.balanceOf p.token1 self) p.reserve1 amount1Out, hp, hu, hw₁, hcall,
    World.setPair_pair _ _ _, ?_, rfl⟩
  simp only [World.emit, World.setPair, List.append_assoc, List.cons_append, List.nil_append]

theorem skim_reports (h : ArkSwapPair.skim env w self dst = .ok ((), w')) : Reported w w' [] := by
  rw [ArkSwapPair.skim, lock_eq_ok] at h
  obtain ⟨p, w₁, q, -, -, hb, -, rfl⟩ := h
  simp only [bind_eq_ok, pure_eq_ok, Except.ok.injEq, Prod.mk.injEq] at hb
  obtain ⟨p', -, _, -, w₂, ht₀, _, -, w₃, ht₁, -, rfl⟩ := hb
  have hpaid := (safeTransfer_reports ht₀).trans (safeTransfer_reports ht₁)
  exact ⟨hpaid.logs, hpaid.native⟩

theorem sync_reports (h : ArkSwapPair.sync w self = .ok ((), w')) :
    ∃ q, w'.pair self = some q ∧ Reported w w' [.sync self q.reserve0 q.reserve1] := by
  rw [ArkSwapPair.sync, lock_eq_ok] at h
  obtain ⟨p, w₁, q, -, -, hb, hq, rfl⟩ := h
  simp only [bind_eq_ok, pure_eq_ok, Except.ok.injEq, Prod.mk.injEq] at hb
  obtain ⟨p', -, q', -, -, rfl⟩ := hb
  simp only [World.emit_pair, World.setPair_pair, Option.some.injEq] at hq
  subst hq
  exact ⟨_, World.setPair_pair _ _ _, rfl, rfl⟩

end ArkSwap
