import ArkSwap.LibrarySpec
import ArkSwap.PairFlow

/-! What the hops of a path, and the deposits and withdrawals around them,
bring to an account at which no pair is deployed. -/

namespace ArkSwap

open Checked ArkSwapPair ArkSwapLibrary ArkSwapRouter02 TransferHelper

variable {env : Env} {r sender dst : Address} {w w' w'' : World} {path : List Address}

/-- The contract at the address of two tokens' pair trades these tokens. -/
def Trades (env : Env) (w : World) (a b : Address) : Prop :=
  ∀ p, w.pair (pool env a b) = some p → p.token0 = min a b ∧ p.token1 = max a b

theorem Trades.of_samePairs {a b : Address} (h : Trades env w a b) (hs : SamePairs w w') :
    Trades env w' a b := by
  intro p' hp'
  obtain ⟨p, hp, h₀, h₁⟩ := hs _ _ hp'
  obtain ⟨h₀', h₁'⟩ := h p hp
  exact ⟨h₀.trans h₀', h₁.trans h₁'⟩

theorem SamePairs.none (h : SamePairs w w') (hr : w.pair r = none) : w'.pair r = none := by
  cases hp : w'.pair r with
  | none => rfl
  | some p' =>
    obtain ⟨p, hp, -⟩ := h r p' hp
    rw [hr] at hp
    cases hp

theorem ne_of_deployed {q : Address} {p : ArkSwapPair} (hr : w.pair r = none)
    (hq : w.pair q = some p) : r ≠ q := by
  rintro rfl
  rw [hr] at hq
  cases hq

/-- One hop of a path, paid out to `hop`. -/
def trade (env : Env) (w : World) (a b : Address) (amountOut : Nat) (hop : Address) :
    Except String (Unit × World) :=
  ArkSwapPair.swap env w (pool env a b) env.router (if a = min a b then 0 else amountOut)
    (if a = min a b then amountOut else 0) hop none

/-- The hops along a path, with what each of them delivers. Both loops of
the router are such a run. -/
inductive Hops (env : Env) (dst : Address) : World → List Address → List Nat → World → Prop where
  | done (w : World) (path : List Address) : path.length ≤ 1 → Hops env dst w path [] w
  | hop {w w₁ w' : World} {a b next : Address} {rest : List Address} {y : Nat} {ys : List Nat} :
      a ≠ b → hopTo env dst b rest = .ok next → trade env w a b y next = .ok ((), w₁) →
      Hops env dst w₁ (b :: rest) ys w' → Hops env dst w (a :: b :: rest) (y :: ys) w'

theorem ite_swap {p : Prop} [Decidable p] (x y : Nat) :
    (if p then (x, y) else (y, x)) = (if p then x else y, if p then y else x) := by
  split <;> rfl

theorem swapAmounts_hops {amounts : List Nat} (hlen : amounts.length = path.length)
    (h : swapAmounts env dst w amounts path = .ok w') :
    Hops env dst w path amounts.tail w' := by
  induction path generalizing w amounts with
  | nil =>
    obtain rfl := List.length_eq_zero_iff.mp hlen
    obtain rfl := Except.ok.inj h
    exact .done _ _ (Nat.zero_le _)
  | cons a path ih =>
    match path, amounts, hlen with
    | [], [x], _ =>
      obtain rfl := Except.ok.inj h
      exact .done _ _ (le_refl _)
    | b :: rest, x :: y :: amounts, hlen =>
      simp only [swapAmounts, bind_eq_ok, sortTokens_eq_ok, pairFor_eq_ok] at h
      obtain ⟨_, ⟨hne, -, rfl⟩, hop, hhop, _, ⟨-, -, rfl⟩, ⟨_, w₁⟩, hswap, hrest⟩ := h
      simp only [ite_swap] at hswap
      exact .hop hne hhop hswap (ih (by simpa using hlen) hrest)

theorem swapSupporting_hops (h : swapSupportingFeeOnTransferTokens env dst w path = .ok w') :
    ∃ ys, Hops env dst w path ys w' := by
  induction path generalizing w with
  | nil =>
    obtain rfl := Except.ok.inj h
    exact ⟨[], .done _ _ (Nat.zero_le _)⟩
  | cons a path ih =>
    match path with
    | [] =>
      obtain rfl := Except.ok.inj h
      exact ⟨[], .done _ _ (le_refl _)⟩
    | b :: rest =>
      simp only [swapSupportingFeeOnTransferTokens, bind_eq_ok, sortTokens_eq_ok,
        pairFor_eq_ok] at h
      obtain ⟨_, ⟨hne, -, rfl⟩, _, ⟨-, -, rfl⟩, p, -, _, -, y, -, hop, hhop, ⟨_, w₁⟩, hswap,
        hrest⟩ := h
      simp only [ite_swap] at hswap
      obtain ⟨ys, hys⟩ := ih hrest
      exact ⟨y :: ys, .hop hne hhop hswap hys⟩

theorem trade_deployed {a b hop : Address} {y : Nat} (h : trade env w a b y hop = .ok ((), w')) :
    ∃ p, w.pair (pool env a b) = some p := by
  rw [trade, ArkSwapPair.swap, lock_eq_ok] at h
  obtain ⟨p, -, -, hp, -⟩ := h
  exact ⟨p, hp⟩

theorem arriveBoth_sorted {p : ArkSwapPair} {a b src : Address} {x y : Nat} (hne : a ≠ b)
    (h₀ : p.token0 = min a b) (h₁ : p.token1 = max a b) (t : Address) :
    arriveBoth env r src dst (if a = min a b then x else y) (if a = min a b then y else x) p t =
      arrives env r a src dst x t + arrives env r b src dst y t := by
  rw [arriveBoth, h₀, h₁]
  rcases lt_or_gt_of_ne hne with hab | hab
  · rw [min_eq_left hab.le, max_eq_right hab.le, if_pos rfl, if_pos rfl]
  · rw [min_eq_right hab.le, max_eq_left hab.le, if_neg hne, if_neg hne, Nat.add_comm]

theorem trade_samePairs {a b hop : Address} {y : Nat}
    (h : trade env w a b y hop = .ok ((), w')) (hr : w.pair r = none) : SamePairs w w' := by
  obtain ⟨p, hp⟩ := trade_deployed h
  obtain ⟨_, -, hflow⟩ := swap_flow h (ne_of_deployed hr hp)
  exact hflow.pairs

/-- A hop keeps the pairs, and brings the account only what it is paid to. -/
theorem trade_flow {a b hop : Address} {y : Nat} (h : trade env w a b y hop = .ok ((), w'))
    (hne : a ≠ b) (hr : w.pair r = none) (ht : hop = r → Trades env w a b) :
    Flow r w w' (arrives env r b (pool env a b) hop y) := by
  obtain ⟨p, hp, hflow⟩ := swap_flow h (ne_of_deployed hr (trade_deployed h).choose_spec)
  refine hflow.congr (fun t => ?_)
  by_cases hd : hop = r
  · obtain ⟨h₀, h₁⟩ := ht hd p hp
    rw [arriveBoth_sorted hne h₀ h₁, arrives_zero, Nat.zero_add]
  · rw [arriveBoth, arrives_of_ne _ hd, arrives_of_ne _ hd, arrives_of_ne _ hd]

theorem Hops.flow {ys : List Nat} (h : Hops env dst w path ys w') (hr : w.pair r = none)
    (ht : dst = r → ∀ pre a b, path = pre ++ [a, b] → Trades env w a b) :
    (ys = [] ∧ w' = w) ∨ ∃ last y src, path.getLast? = some last ∧ ys.getLast? = some y ∧
      Flow r w w' (arrives env r last src dst y) := by
  induction h with
  | done => exact .inl ⟨rfl, rfl⟩
  | @hop w w₁ w' a b next rest y ys hne hhop htrade hrest ih =>
    right
    cases hrest with
    | done _ _ hlen =>
      obtain rfl : rest = [] := by simpa using hlen
      obtain rfl := Except.ok.inj hhop
      exact ⟨b, y, _, rfl, rfl, trade_flow htrade hne hr fun hd => ht hd [] a b rfl⟩
    | @hop _ w₂ _ _ c _ rest z zs _ hhop' htrade' hrest' =>
      obtain ⟨-, -, rfl⟩ := pairFor_eq_ok.mp hhop
      have hs := trade_samePairs htrade hr
      have hr₁ := hs.none hr
      -- the next pool is deployed, so this hop does not pay the account
      have hpay : r ≠ pool env b c := ne_of_deployed hr₁ (trade_deployed htrade').choose_spec
      have hflow := (trade_flow htrade hne hr fun hd => (hpay hd.symm).elim).congr
        (arrives_of_ne y hpay.symm)
      obtain ⟨hnil, -⟩ | ⟨last, v, src, hlast, hv, hrun⟩ := ih hr₁ fun hd pre a' b' hpath => by
        have htr := ht hd (a :: pre) a' b' (by rw [hpath, List.cons_append])
        exact htr.of_samePairs hs
      · cases hnil
      · exact ⟨last, v, src, by rwa [List.getLast?_cons_cons],
          by rwa [List.getLast?_cons_cons], hflow.still_trans hrun⟩

theorem permitShares_flow {a b : Address} {liquidity deadline : Nat} {sig : Permit}
    (h : permitShares env w sender a b liquidity deadline sig = .ok w') :
    Flow r w w' fun _ => 0 := by
  simp only [permitShares, bind_eq_ok, pure_eq_ok, Except.ok.injEq] at h
  obtain ⟨pair, -, -, -, lp, hlp, rfl⟩ := h
  obtain ⟨-, -, -, rfl⟩ := ArkSwapERC20.permit_ok hlp
  exact Flow.setToken rfl

theorem removeLiquidity_flow {a b : Address} {liquidity minA minB deadline x y : Nat}
    (h : removeLiquidity env w sender a b liquidity minA minB dst deadline = .ok ((x, y), w'))
    (hr : w.pair r = none) (hs : r ≠ sender) (hf : r ≠ w.factory.feeTo)
    (ht : dst = r → Trades env w a b) :
    a ≠ b ∧ ∃ src, Flow r w w' fun t => arrives env r a src dst x t + arrives env r b src dst y t := by
  simp only [removeLiquidity, bind_eq_ok, sortTokens_eq_ok, pairFor_eq_ok, World.storage_eq_ok,
    require_eq_ok, pure_eq_ok, Except.ok.injEq, Prod.mk.injEq] at h
  obtain ⟨-, -, _, ⟨hne, -, rfl⟩, p, hp, lp, hlp, ⟨⟨a₀, a₁⟩, w₁⟩, hburn, _, ⟨-, -, rfl⟩, -, -, -, -,
    ⟨rfl, rfl⟩, rfl⟩ := h
  have hsp : r ≠ pool env a b := ne_of_deployed hr hp
  have hshares : Flow r w (w.setToken (pool env a b) lp) fun _ => 0 := by
    refine Flow.setToken ?_
    rw [ArkSwapERC20.transferFrom, bind_eq_ok] at hlp
    obtain ⟨t, ht, hmove⟩ := hlp
    obtain ⟨-, -, rfl⟩ := ArkSwapERC20.transfer_eq_ok.mp hmove
    obtain ⟨-, hb, -⟩ := ArkSwapERC20.spendAllowance_ok ht
    rw [← hb]
    exact Ledger.move_of_ne _ hs hsp
  obtain ⟨p', hp', hflow⟩ := burn_flow hburn hsp hf
  obtain rfl : p = p' := Option.some.inj (hp.symm.trans hp')
  refine ⟨hne, pool env a b, (hshares.still_trans hflow).congr fun t => ?_⟩
  by_cases hd : dst = r
  · obtain ⟨h₀, h₁⟩ := ht hd p hp
    rw [← arriveBoth_sorted hne h₀ h₁]
    split <;> rfl
  · rw [arriveBoth, arrives_of_ne _ hd, arrives_of_ne _ hd, arrives_of_ne _ hd,
      arrives_of_ne _ hd]

end ArkSwap
