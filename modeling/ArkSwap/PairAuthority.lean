import ArkSwap.PairSolvency

/-! Who moves the shares of a pair: the calls a run makes one by one, nested ones
too, and for each of them whose balance it lowers, which allowance it raises and
which signature it uses. -/

namespace ArkSwap

open Checked ArkSwapPair

namespace Call

variable {self t₀ t₁ : Address}

/-- The calls that a call which succeeds makes itself or in the callback. -/
def parts : Call self → List (Call self)
  | swap _ _ _ _ (some calls) => calls
  | c => [c]

/-- The calls of a run that succeeded, nested ones too, each with its time. -/
def executed (env : Env) : World → List (Nat × Call self) → List (Nat × Call self)
  | _, [] => []
  | w, (ts, c) :: calls =>
      (match exec env { w with timestamp := ts } c with
        | .ok _ => c.parts.map fun d => (ts, d)
        | .error _ => []) ++ executed env (step env w (ts, c)) calls

/-- A permit of an owner. -/
def IsPermit (o : Address) : Call self → Bool
  | permit owner .. => owner == o
  | _ => false

def permits (o : Address) (calls : List (Nat × Call self)) : Nat :=
  calls.countP fun c => c.2.IsPermit o

/-- A call without callback takes the shares from one ledger to another. -/
def Performed (env : Env) (t₀ t₁ : Address) (ts : Nat) (c : Call self) (t t' : ArkSwapERC20) :
    Prop :=
  (∀ sender o₀ o₁ dst calls, c ≠ swap sender o₀ o₁ dst (some calls)) ∧
    ∃ w w' p, w.timestamp = ts ∧ w.pair self = some p ∧ p.token0 = t₀ ∧ p.token1 = t₁ ∧
      p.kLast < Uint.size ∧ exec env w c = .ok w' ∧ w.token self = t ∧ w'.token self = t'

/-- One call after the other. -/
inductive Ledgers (env : Env) (t₀ t₁ : Address) :
    List (Nat × Call self) → ArkSwapERC20 → ArkSwapERC20 → Prop where
  | nil (t : ArkSwapERC20) : Ledgers env t₀ t₁ [] t t
  | cons {ts : Nat} {c : Call self} {calls : List (Nat × Call self)} {t t₂ t' : ArkSwapERC20}
      (h : Performed env t₀ t₁ ts c t t₂) (hcalls : Ledgers env t₀ t₁ calls t₂ t') :
      Ledgers env t₀ t₁ ((ts, c) :: calls) t t'

/-- What a call may do to the shares of others. -/
structure Authorised (env : Env) (pool : Address) (ts : Nat) (c : Call pool)
    (t t' : ArkSwapERC20) : Prop where
  spent : ∀ o, t'.balanceOf o < t.balanceOf o →
    (∃ sender dst value, c = transfer sender dst value ∧ sender.1 = o) ∨
      (∃ spender dst value, c = transferFrom spender o dst value ∧
        (t.allowance o spender = 2 ^ 256 - 1 ∧ t'.allowance o spender = 2 ^ 256 - 1 ∨
          value ≤ t.allowance o spender ∧
            t'.allowance o spender = t.allowance o spender - value)) ∨
      o = pool ∧ ∃ sender dst, c = burn sender dst
  allowed : ∀ o s, t.allowance o s < t'.allowance o s →
    (∃ sender value, c = approve sender s value ∧ sender.1 = o) ∨
      ∃ value deadline v r s', c = permit o s value deadline v r s'
  signed : ∀ o s value deadline v r s', c = permit o s value deadline v r s' →
    o ≠ 0 ∧ ts ≤ deadline ∧
      env.ecrecover (env.permitDigest pool o s value (t.nonces o) deadline) v r s' = o
  nonce : ∀ o, t'.nonces o = if c.IsPermit o then (t.nonces o + 1) % 2 ^ 256 else t.nonces o

/-- A signature recovers to an account for one digest, and digests of different
nonces differ. -/
structure OneDigest (env : Env) (pool : Address) : Prop where
  recovered : ∀ {o : Address} {d d' v r s : Nat}, o ≠ 0 → env.ecrecover d v r s = o →
    env.ecrecover d' v r s = o → d = d'
  nonce : ∀ {o s s' : Address} {value value' n n' deadline deadline' : Nat}, n < 2 ^ 256 →
    n' < 2 ^ 256 → env.permitDigest pool o s value n deadline =
      env.permitDigest pool o s' value' n' deadline' → n = n'

variable {env : Env} {w w' w₀ : World} {p : ArkSwapPair} {ts : Nat} {t t' u : ArkSwapERC20}
variable {c : Call self} {calls before after : List (Nat × Call self)}

theorem Ledgers.append (h : Ledgers env t₀ t₁ before t u) (h' : Ledgers env t₀ t₁ after u t') :
    Ledgers env t₀ t₁ (before ++ after) t t' := by
  induction h with
  | nil => exact h'
  | cons hc _ ih => exact .cons hc (ih h')

theorem Ledgers.split (h : Ledgers env t₀ t₁ (before ++ after) t t') :
    ∃ u, Ledgers env t₀ t₁ before t u ∧ Ledgers env t₀ t₁ after u t' := by
  induction before generalizing t with
  | nil => exact ⟨t, .nil t, h⟩
  | cons c before ih =>
    rw [List.cons_append] at h
    cases h with
    | cons hc hrest =>
      obtain ⟨u, hbefore, hafter⟩ := ih hrest
      exact ⟨u, .cons hc hbefore, hafter⟩

section Executed

theorem exec_timestamp (hc : ¬c.Locking) (h : exec env w c = .ok w') : w'.timestamp = w.timestamp := by
  cases c with
  | transfer sender dst value =>
    simp only [exec, bind_eq_ok, pure_eq_ok, Except.ok.injEq] at h
    obtain ⟨t, -, rfl⟩ := h
    rfl
  | transferFrom sender src dst value =>
    simp only [exec, bind_eq_ok, pure_eq_ok, Except.ok.injEq] at h
    obtain ⟨t, -, rfl⟩ := h
    rfl
  | approve sender spender value =>
    obtain rfl := Except.ok.inj h
    rfl
  | permit owner spender value deadline v r s =>
    simp only [exec, bind_eq_ok, pure_eq_ok, Except.ok.injEq] at h
    obtain ⟨t, -, rfl⟩ := h
    rfl
  | pay token src dst value =>
    simp only [exec, World.transfer, bind_eq_ok, pure_eq_ok, Except.ok.injEq] at h
    obtain ⟨t, -, t', -, rfl⟩ := h
    rfl
  | issue token dst value =>
    simp only [exec, bind_eq_ok, pure_eq_ok, Except.ok.injEq] at h
    obtain ⟨t, -, rfl⟩ := h
    rfl
  | setFeeTo sender feeTo =>
    simp only [exec, bind_eq_ok, pure_eq_ok, Except.ok.injEq] at h
    obtain ⟨f, -, rfl⟩ := h
    rfl
  | setFeeToSetter sender feeToSetter =>
    simp only [exec, bind_eq_ok, pure_eq_ok, Except.ok.injEq] at h
    obtain ⟨f, -, rfl⟩ := h
    rfl
  | _ => exact (hc trivial).elim

/-- Under the lock the calls of a callback follow one another. -/
theorem ledgers_of_execAll (hp : w.pair self = some p) (hu : p.unlocked = 0) (h₀ : p.token0 = t₀)
    (h₁ : p.token1 = t₁) (hk : p.kLast < Uint.size) {cs : List (Call self)}
    (h : execAll env w cs = .ok w') :
    Ledgers env t₀ t₁ (cs.map fun d => (w.timestamp, d)) (w.token self) (w'.token self) := by
  induction cs generalizing w with
  | nil =>
    obtain rfl := Except.ok.inj h
    exact .nil _
  | cons c cs ih =>
    rw [execAll, bind_eq_ok] at h
    obtain ⟨w₁, hc, hcs⟩ := h
    have hl := not_locking_of_exec hp hu hc
    have hrest := ih ((exec_beside hl hc).pair.trans hp) hcs
    rw [exec_timestamp hl hc] at hrest
    refine .cons ⟨?_, w, w₁, p, rfl, hp, h₀, h₁, hk, hc, rfl, rfl⟩ hrest
    rintro sender o₀ o₁ dst calls rfl
    exact hl trivial

theorem ledgers_of_exec (hd : Deployed env self t₀ t₁) (h : Sound self t₀ t₁ w p)
    (hx : exec env w c = .ok w') :
    Ledgers env t₀ t₁ (c.parts.map fun d => (w.timestamp, d)) (w.token self) (w'.token self) := by
  have hone : (∀ sender o₀ o₁ dst calls, c ≠ swap sender o₀ o₁ dst (some calls)) →
      Ledgers env t₀ t₁ [(w.timestamp, c)] (w.token self) (w'.token self) := fun hc =>
    .cons ⟨hc, w, w', p, rfl, h.pair, h.token0, h.token1, h.kLast_lt, hx, rfl, rfl⟩ (.nil _)
  cases c with
  | swap sender o₀ o₁ dst data =>
    cases data with
    | none => exact hone fun _ _ _ _ _ hc => by cases hc
    | some cs =>
      simp only [exec, bind_eq_ok, pure_eq_ok, Except.ok.injEq] at hx
      obtain ⟨⟨⟨⟩, w₂⟩, hswap, rfl⟩ := hx
      obtain ⟨-, -, -, -, -, -, -, w₁, p₁, q, hcall, -, -, -, -, htoken, -⟩ :=
        swap_ok (h.deployed hd).standard0 (h.deployed hd).standard1 h.pair hswap
      have hstart : (paidOut (w.setPair self { p with unlocked := 0 }) self dst p o₀ o₁).token self =
          w.token self := by
        rw [paidOut_token_of_ne (h.deployed hd).token0_ne.symm (h.deployed hd).token1_ne.symm,
          World.setPair_token]
      have hlocked : (paidOut (w.setPair self { p with unlocked := 0 }) self dst p o₀ o₁).pair self =
          some { p with unlocked := 0 } := by simp [paidOut]
      simp only [callback, execData] at hcall
      by_cases hdst : dst = self
      · rw [if_pos hdst] at hcall
        cases hcall
      · rw [if_neg hdst] at hcall
        have hledgers := ledgers_of_execAll hlocked rfl h.token0 h.token1 h.kLast_lt hcall
        rw [hstart] at hledgers
        rw [htoken]
        exact hledgers
  | mint | burn | skim | sync | transfer | transferFrom | approve | permit | pay | issue | setFeeTo |
    setFeeToSetter => exact hone fun _ _ _ _ _ hc => by cases hc

theorem ledgers_of_run (hd : Deployed env self t₀ t₁) (h : Sound self t₀ t₁ w p) :
    Ledgers env t₀ t₁ (executed env w calls) (w.token self) ((run env w calls).token self) := by
  induction calls generalizing w p with
  | nil => exact .nil _
  | cons c calls ih =>
    obtain ⟨ts, c⟩ := c
    obtain ⟨q, hq, -⟩ := h.step hd (ts, c)
    refine Ledgers.append ?_ (ih hq)
    rw [step]
    rcases hx : exec env { w with timestamp := ts } c with e | w'
    · exact .nil _
    · exact ledgers_of_exec hd (h.at_time ts) hx

end Executed

section Authority

theorem Authorised.of_raised (hb : ∀ o, t.balanceOf o ≤ t'.balanceOf o)
    (ha : t'.allowance = t.allowance) (hn : t'.nonces = t.nonces)
    (hc : ∀ o s value deadline v r s', c ≠ permit o s value deadline v r s') :
    Authorised env self ts c t t' where
  spent o ho := absurd (hb o) (Nat.not_le_of_lt ho)
  allowed o s hlt := by
    rw [ha] at hlt
    exact (Nat.lt_irrefl _ hlt).elim
  signed o s value deadline v r s' hp := (hc o s value deadline v r s' hp).elim
  nonce o := by
    rw [hn, if_neg]
    cases c with
    | permit owner spender value deadline v r s => exact (hc _ _ _ _ _ _ _ rfl).elim
    | _ => exact Bool.false_ne_true

theorem mintLiquidity_raised {lp lp' : ArkSwapERC20} {a₀ a₁ r₀ r₁ L : Nat}
    (h : mintLiquidity lp a₀ a₁ r₀ r₁ = .ok (L, lp')) :
    (∀ o, lp.balanceOf o ≤ lp'.balanceOf o) ∧ lp'.allowance = lp.allowance ∧
      lp'.nonces = lp.nonces := by
  unfold mintLiquidity at h
  split at h
  · simp only [bind_eq_ok, pure_eq_ok, Except.ok.injEq, Prod.mk.injEq] at h
    obtain ⟨_, -, _, -, _, -, lp₁, hmint, -, rfl⟩ := h
    obtain ⟨-, -, rfl⟩ := ArkSwapERC20.mint_eq_ok.mp hmint
    exact ⟨fun o => Ledger.le_credit _ _ _ _, rfl, rfl⟩
  · simp only [bind_eq_ok, pure_eq_ok, Except.ok.injEq, Prod.mk.injEq] at h
    obtain ⟨_, -, _, -, _, -, _, -, -, rfl⟩ := h
    exact ⟨fun o => Nat.le_refl _, rfl, rfl⟩

theorem feeLedger_raised (w : World) (self : Address) (p : ArkSwapPair) (o : Address) :
    (w.token self).balanceOf o ≤ (feeLedger w self p).balanceOf o := by
  rw [feeLedger, issued_balanceOf]
  exact Ledger.le_credit _ _ _ _

theorem authorised_mint {sender dst : Address} {L : Nat} (hp : w.pair self = some p)
    (hk : p.kLast < Uint.size) (h : ArkSwapPair.mint w self sender dst = .ok (L, w')) :
    Authorised env self ts (mint sender dst : Call self) (w.token self) (w'.token self) := by
  obtain ⟨-, -, -, -, lp, lp', q, hliquidity, hmint, -, -, htoken, -⟩ := mint_ok hp hk h
  obtain ⟨hraised, hallowance, hnonces⟩ := mintLiquidity_raised hliquidity
  obtain ⟨-, -, rfl⟩ := ArkSwapERC20.mint_eq_ok.mp hmint
  rw [htoken, Function.update_self]
  refine Authorised.of_raised (fun o => ?_) hallowance hnonces fun _ _ _ _ _ _ _ hc => by cases hc
  calc (w.token self).balanceOf o ≤ (feeLedger w self p).balanceOf o := feeLedger_raised w self p o
    _ ≤ lp.balanceOf o := hraised o
    _ ≤ Ledger.credit lp.balanceOf dst L o := Ledger.le_credit _ _ _ _

theorem authorised_burn (hd : Deployed env self t₀ t₁) {sender dst : Address} {a₀ a₁ : Nat}
    (hp : w.pair self = some p) (h₀ : p.token0 = t₀) (h₁ : p.token1 = t₁)
    (hk : p.kLast < Uint.size) (h : ArkSwapPair.burn env w self sender dst = .ok ((a₀, a₁), w')) :
    Authorised env self ts (burn sender dst : Call self) (w.token self) (w'.token self) := by
  obtain ⟨-, -, -, -, -, -, lp, q, hburn, -, -, -, -, htoken, -⟩ :=
    burn_ok (h₀ ▸ hd.standard0) (h₁ ▸ hd.standard1) hp hk h
  obtain ⟨-, -, rfl⟩ := ArkSwapERC20.burn_eq_ok.mp hburn
  rw [htoken, paidOut_token_of_ne (h₀ ▸ hd.token0_ne.symm) (h₁ ▸ hd.token1_ne.symm),
    World.setToken_token]
  refine ⟨fun o ho => ?_, fun o s hlt => (Nat.lt_irrefl _ hlt).elim,
    fun _ _ _ _ _ _ _ hc => (by cases hc), fun o => (if_neg Bool.false_ne_true).symm⟩
  by_cases hself : o = self
  · exact Or.inr (Or.inr ⟨hself, sender, dst, rfl⟩)
  · have hraised := feeLedger_raised w self p o
    have hkept : Ledger.debit (feeLedger w self p).balanceOf self (w.balanceOf self self) o =
        (feeLedger w self p).balanceOf o := Ledger.debit_of_ne _ _ hself
    rw [← hkept] at hraised
    exact absurd hraised (Nat.not_le_of_lt ho)

theorem authorised_transfer {sender : Caller self} {dst : Address} {value : Nat}
    (h : t.transfer sender dst value = .ok t') :
    Authorised env self ts (transfer sender dst value : Call self) t t' := by
  obtain ⟨hle, -, rfl⟩ := ArkSwapERC20.transfer_eq_ok.mp h
  refine ⟨fun o ho => ?_, fun o s hlt => (Nat.lt_irrefl _ hlt).elim,
    fun _ _ _ _ _ _ _ hc => (by cases hc), fun o => (if_neg Bool.false_ne_true).symm⟩
  by_cases hs : o = sender.1
  · exact Or.inl ⟨sender, dst, value, rfl, hs.symm⟩
  · exact absurd (Ledger.le_move hs) (Nat.not_le_of_lt ho)

theorem authorised_transferFrom {sender : Caller self} {src dst : Address} {value : Nat}
    (h : t.transferFrom sender src dst value = .ok t') :
    Authorised env self ts (transferFrom sender src dst value : Call self) t t' := by
  simp only [ArkSwapERC20.transferFrom, bind_eq_ok] at h
  obtain ⟨u, hspend, htransfer⟩ := h
  obtain ⟨-, hbalance, hnonces, hallowance⟩ := ArkSwapERC20.spendAllowance_ok hspend
  obtain ⟨hle, -, rfl⟩ := ArkSwapERC20.transfer_eq_ok.mp htransfer
  refine ⟨fun o ho => ?_, fun o s hlt => ?_, fun _ _ _ _ _ _ _ hc => (by cases hc), fun o => ?_⟩
  · have hsrc : o = src := by
      by_contra hne
      have hkept : u.balanceOf o ≤ Ledger.move u.balanceOf src dst value o := Ledger.le_move hne
      rw [hbalance] at hkept
      rw [hbalance] at ho
      exact absurd hkept (Nat.not_le_of_lt ho)
    subst hsrc
    refine Or.inr (Or.inl ⟨sender, dst, value, rfl, ?_⟩)
    rcases hallowance with ⟨hmax, rfl⟩ | ⟨hv, rfl⟩
    · exact Or.inl ⟨hmax, hmax⟩
    · exact Or.inr ⟨hv, by simp [ArkSwapERC20.approve]⟩
  · exfalso
    rcases hallowance with ⟨-, rfl⟩ | ⟨hv, rfl⟩
    · exact Nat.lt_irrefl _ hlt
    · obtain ⟨rfl, rfl, hraise⟩ := ArkSwapERC20.approve_raised hlt
      omega
  · exact (congrFun hnonces o).trans (if_neg Bool.false_ne_true).symm

theorem authorised_approve (t : ArkSwapERC20) (sender : Caller self) (spender : Address)
    (value : Nat) :
    Authorised env self ts (approve sender spender value : Call self) t
      (t.approve sender spender value) := by
  refine ⟨fun o ho => (Nat.lt_irrefl _ ho).elim, fun o s hlt => ?_,
    fun _ _ _ _ _ _ _ hc => (by cases hc), fun o => (if_neg Bool.false_ne_true).symm⟩
  obtain ⟨ho, hs, -⟩ := ArkSwapERC20.approve_raised hlt
  exact Or.inl ⟨sender, value, by rw [hs], ho.symm⟩

theorem authorised_permit {owner spender : Address} {value deadline v r s : Nat}
    (h : t.permit env self ts owner spender value deadline v r s = .ok t') :
    Authorised env self ts (permit owner spender value deadline v r s : Call self) t t' := by
  obtain ⟨hdeadline, hne, hrecover, rfl⟩ := ArkSwapERC20.permit_ok h
  refine ⟨fun o ho => (Nat.lt_irrefl _ ho).elim, fun o a hlt => ?_,
    fun o a b d x y z hc => ?_, fun o => ?_⟩
  · obtain ⟨ho, hs, -⟩ := ArkSwapERC20.approve_raised hlt
    exact Or.inr ⟨value, deadline, v, r, s, by rw [ho, hs]⟩
  · cases hc
    exact ⟨hne, hdeadline, hrecover⟩
  · simp only [ArkSwapERC20.approve, Function.update_apply, IsPermit, beq_iff_eq]
    by_cases ho : o = owner
    · rw [if_pos ho, if_pos ho.symm, ho]
      rfl
    · rw [if_neg ho, if_neg (Ne.symm ho)]

theorem authorised_of_performed (hd : Deployed env self t₀ t₁)
    (h : Performed env t₀ t₁ ts c t t') : Authorised env self ts c t t' := by
  obtain ⟨hone, w, w', p, rfl, hp, h₀, h₁, hk, hx, rfl, rfl⟩ := h
  have hsame : w'.token self = w.token self →
      (∀ o s value deadline v r s', c ≠ permit o s value deadline v r s') →
      Authorised env self w.timestamp c (w.token self) (w'.token self) := fun heq hc =>
    Authorised.of_raised (fun o => by rw [heq]) (by rw [heq]) (by rw [heq]) hc
  have hfree : ∀ dst a b, (paidOut w self dst p a b).token self = w.token self := fun dst a b =>
    paidOut_token_of_ne (h₀ ▸ hd.token0_ne.symm) (h₁ ▸ hd.token1_ne.symm)
  cases c with
  | mint sender dst =>
    simp only [exec, bind_eq_ok, pure_eq_ok, Except.ok.injEq] at hx
    obtain ⟨⟨L, w₁⟩, hmint, rfl⟩ := hx
    exact authorised_mint hp hk hmint
  | burn sender dst =>
    simp only [exec, bind_eq_ok, pure_eq_ok, Except.ok.injEq] at hx
    obtain ⟨⟨⟨a₀, a₁⟩, w₁⟩, hburn, rfl⟩ := hx
    exact authorised_burn hd hp h₀ h₁ hk hburn
  | swap sender o₀ o₁ dst data =>
    cases data with
    | some calls => exact (hone _ _ _ _ _ rfl).elim
    | none =>
      simp only [exec, bind_eq_ok, pure_eq_ok, Except.ok.injEq] at hx
      obtain ⟨⟨⟨⟩, w₁⟩, hswap, rfl⟩ := hx
      obtain ⟨-, -, -, -, -, -, -, w₂, p₁, q, hcall, -, -, -, -, htoken, -⟩ :=
        swap_ok (h₀ ▸ hd.standard0) (h₁ ▸ hd.standard1) hp hswap
      obtain rfl := Except.ok.inj hcall
      refine hsame ?_ fun _ _ _ _ _ _ _ hc => by cases hc
      rw [htoken]
      exact hfree dst o₀ o₁
  | skim dst =>
    simp only [exec, bind_eq_ok, pure_eq_ok, Except.ok.injEq] at hx
    obtain ⟨⟨⟨⟩, w₁⟩, hskim, rfl⟩ := hx
    obtain ⟨-, -, -, -, htoken, -⟩ := skim_ok (h₀ ▸ hd.standard0) (h₁ ▸ hd.standard1) hp hskim
    refine hsame ?_ fun _ _ _ _ _ _ _ hc => by cases hc
    rw [htoken]
    exact hfree _ _ _
  | sync =>
    simp only [exec, bind_eq_ok, pure_eq_ok, Except.ok.injEq] at hx
    obtain ⟨⟨⟨⟩, w₁⟩, hsync, rfl⟩ := hx
    obtain ⟨-, q, -, -, htoken, -⟩ := sync_ok hp hsync
    exact hsame (by rw [htoken]) fun _ _ _ _ _ _ _ hc => by cases hc
  | transfer sender dst value =>
    simp only [exec, bind_eq_ok, pure_eq_ok, Except.ok.injEq] at hx
    obtain ⟨u, htransfer, rfl⟩ := hx
    rw [World.setToken_token]
    exact authorised_transfer htransfer
  | transferFrom sender src dst value =>
    simp only [exec, bind_eq_ok, pure_eq_ok, Except.ok.injEq] at hx
    obtain ⟨u, htransfer, rfl⟩ := hx
    rw [World.setToken_token]
    exact authorised_transferFrom htransfer
  | approve sender spender value =>
    obtain rfl := Except.ok.inj hx
    rw [World.setToken_token]
    exact authorised_approve _ sender spender value
  | permit owner spender value deadline v r s =>
    simp only [exec, bind_eq_ok, pure_eq_ok, Except.ok.injEq] at hx
    obtain ⟨u, hpermit, rfl⟩ := hx
    rw [World.setToken_token]
    exact authorised_permit hpermit
  | pay token src dst value =>
    simp only [exec, World.transfer, bind_eq_ok, pure_eq_ok, Except.ok.injEq] at hx
    obtain ⟨u, -, u', -, rfl⟩ := hx
    exact hsame (World.setToken_token_of_ne token.2.symm) fun _ _ _ _ _ _ _ hc => by cases hc
  | issue token dst value =>
    simp only [exec, bind_eq_ok, pure_eq_ok, Except.ok.injEq] at hx
    obtain ⟨u, -, rfl⟩ := hx
    exact hsame (World.setToken_token_of_ne token.2.symm) fun _ _ _ _ _ _ _ hc => by cases hc
  | setFeeTo sender feeTo =>
    simp only [exec, bind_eq_ok, pure_eq_ok, Except.ok.injEq] at hx
    obtain ⟨f, -, rfl⟩ := hx
    exact hsame rfl fun _ _ _ _ _ _ _ hc => by cases hc
  | setFeeToSetter sender feeToSetter =>
    simp only [exec, bind_eq_ok, pure_eq_ok, Except.ok.injEq] at hx
    obtain ⟨f, -, rfl⟩ := hx
    exact hsame rfl fun _ _ _ _ _ _ _ hc => by cases hc

end Authority

section Runs

theorem permits_cons (o : Address) (c : Nat × Call self) (calls : List (Nat × Call self)) :
    permits o (c :: calls) = permits o calls + if c.2.IsPermit o then 1 else 0 :=
  List.countP_cons

theorem permits_append (o : Address) (before after : List (Nat × Call self)) :
    permits o (before ++ after) = permits o before + permits o after :=
  List.countP_append

theorem Ledgers.nonces (hd : Deployed env self t₀ t₁) (h : Ledgers env t₀ t₁ calls t t')
    {o : Address} (ht : t.nonces o < 2 ^ 256) :
    t'.nonces o = (t.nonces o + permits o calls) % 2 ^ 256 := by
  induction h with
  | nil t => exact (Nat.mod_eq_of_lt ht).symm
  | @cons ts c calls t t₂ t' hc hcalls ih =>
    have hone := (authorised_of_performed hd hc).nonce o
    rw [permits_cons]
    split at hone
    · rename_i hpermit
      have hlt : t₂.nonces o < 2 ^ 256 := by
        rw [hone]
        exact Nat.mod_lt _ (by norm_num)
      rw [ih hlt, hone, if_pos hpermit, Nat.mod_add_mod]
      congr 1
      omega
    · rename_i hpermit
      rw [ih (hone ▸ ht), hone, if_neg hpermit, Nat.add_zero]

/-- One signature serves again only after the nonce has come round. -/
theorem Ledgers.signed_twice (hd : Deployed env self t₀ t₁) (hone : OneDigest env self)
    {ts ts' : Nat} {o s s' : Address} {value value' deadline deadline' v r x : Nat}
    (h : Ledgers env t₀ t₁ ((ts, (permit o s value deadline v r x : Call self)) :: calls) t u)
    (hc : Performed env t₀ t₁ ts' (permit o s' value' deadline' v r x : Call self) u t')
    (ht : t.nonces o < 2 ^ 256) : 2 ^ 256 ∣ permits o calls + 1 := by
  have hu : u.nonces o = (t.nonces o + (permits o calls + 1)) % 2 ^ 256 := by
    rw [h.nonces hd ht, permits_cons, if_pos (by simp [IsPermit])]
  have hlt : u.nonces o < 2 ^ 256 := by
    rw [hu]
    exact Nat.mod_lt _ (by norm_num)
  cases h with
  | cons hfirst hrest =>
    obtain ⟨hne, -, hrecover⟩ :=
      (authorised_of_performed hd hfirst).signed o s value deadline v r x rfl
    obtain ⟨-, -, hrecover'⟩ :=
      (authorised_of_performed hd hc).signed o s' value' deadline' v r x rfl
    have hsame := hone.nonce ht hlt (hone.recovered hne hrecover hrecover')
    omega

theorem run_authorised (hd : Deployed env self t₀ t₁) (hone : OneDigest env self)
    (hw : Fresh self t₀ t₁ w₀) (calls : List (Nat × Call self)) :
    (∀ before after ts c, executed env w₀ calls = before ++ (ts, c) :: after →
      ∃ t t', Ledgers env t₀ t₁ before (w₀.token self) t ∧ Authorised env self ts c t t' ∧
        Ledgers env t₀ t₁ after t' ((run env w₀ calls).token self) ∧
        ∀ o, t.nonces o = permits o before % 2 ^ 256) ∧
    (∀ o, ((run env w₀ calls).token self).nonces o =
      permits o (executed env w₀ calls) % 2 ^ 256) ∧
    ∀ before middle after ts ts' o s s' value value' deadline deadline' v r x,
      executed env w₀ calls = before ++ (ts, permit o s value deadline v r x) ::
        (middle ++ (ts', permit o s' value' deadline' v r x) :: after) →
      2 ^ 256 ∣ permits o middle + 1 := by
  obtain ⟨p, hp⟩ := hw.sound hd
  have hrun : Ledgers env t₀ t₁ (executed env w₀ calls) (w₀.token self)
      ((run env w₀ calls).token self) := ledgers_of_run hd hp
  have hstart : ∀ o, (w₀.token self).nonces o = 0 := fun o => by rw [hw.shares]; rfl
  have hnonces : ∀ {calls : List (Nat × Call self)} {t : ArkSwapERC20},
      Ledgers env t₀ t₁ calls (w₀.token self) t → ∀ o, t.nonces o = permits o calls % 2 ^ 256 := by
    intro calls t h o
    rw [h.nonces hd (by rw [hstart]; norm_num), hstart, Nat.zero_add]
  refine ⟨fun before after ts c heq => ?_, hnonces hrun, ?_⟩
  · rw [heq] at hrun
    obtain ⟨t, hbefore, hrest⟩ := hrun.split
    cases hrest with
    | cons hc hafter =>
      exact ⟨t, _, hbefore, authorised_of_performed hd hc, hafter, hnonces hbefore⟩
  · intro before middle after ts ts' o s s' value value' deadline deadline' v r x heq
    rw [heq] at hrun
    obtain ⟨t, hbefore, hrest⟩ := hrun.split
    rw [← List.cons_append] at hrest
    obtain ⟨u, hmiddle, hlast⟩ := hrest.split
    have ht : t.nonces o < 2 ^ 256 := by
      rw [hnonces hbefore]
      exact Nat.mod_lt _ (by norm_num)
    cases hlast with
    | cons hc _ => exact hmiddle.signed_twice hd hone hc ht

end Runs

section Wrap

theorem executed_append (env : Env) (w : World) (before after : List (Nat × Call self)) :
    executed env w (before ++ after) =
      executed env w before ++ executed env (run env w before) after := by
  induction before generalizing w with
  | nil => rfl
  | cons c before ih =>
    obtain ⟨ts, c⟩ := c
    rw [List.cons_append, executed, executed, ih, List.append_assoc]
    rfl

/-- The digest is the nonce, and account 7 signs a digest with itself. -/
def nonceEnv : Env :=
  { plainEnv with
    permitDigest := fun _ _ _ _ n _ => n
    ecrecover := fun d _ r _ => if r = d then 7 else 0 }

/-- Account 7 signs one permit after the other. -/
def permitted (n : Nat) : List (Nat × Call 6) :=
  (List.range n).map fun k => (0, permit 7 8 1 0 0 k 0)

theorem nonceEnv_deployed : Deployed nonceEnv 6 4 5 where
  pool_ne := by decide
  tokens_ne := by decide
  token0_ne := by decide
  token1_ne := by decide
  standard0 _ _ _ := rfl
  standard1 _ _ _ := rfl

theorem nonceEnv_oneDigest : OneDigest nonceEnv 6 where
  recovered := by
    intro o d d' v r s hne h h'
    simp only [nonceEnv] at h h'
    split at h
    · split at h'
      · omega
      · exact (hne h'.symm).elim
    · exact (hne h.symm).elim
  nonce _ _ h := h

/-- Every permit signed over the current nonce goes through. -/
theorem permit_nonceEnv {w : World} {n : Nat} (hn : (w.token 6).nonces 7 = n) :
    ∃ w', exec nonceEnv { w with timestamp := 0 } (permit 7 8 1 0 0 n 0 : Call 6) = .ok w' ∧
      (w'.token 6).nonces 7 = (n + 1) % 2 ^ 256 := by
  have hpermit : ∃ t, (w.token 6).permit nonceEnv 6 0 7 8 1 0 0 n 0 = .ok t := by
    simp [ArkSwapERC20.permit, nonceEnv, hn, require, bind, pure, Except.bind, Except.pure]
  obtain ⟨t, ht⟩ := hpermit
  refine ⟨({ w with timestamp := 0 } : World).setToken 6 t, by rw [exec, ht]; rfl, ?_⟩
  obtain ⟨-, -, -, rfl⟩ := ArkSwapERC20.permit_ok ht
  rw [World.setToken_token, ← hn]
  show Function.update (w.token 6).nonces 7 (Uint.add ((w.token 6).nonces 7) 1) 7 = _
  rw [Function.update_self, Uint.add, Uint.size]

theorem executed_permitted {n : Nat} (hn : n ≤ 2 ^ 256) :
    ((run nonceEnv freshWorld (permitted n)).token 6).nonces 7 = n % 2 ^ 256 ∧
      permits 7 (executed nonceEnv freshWorld (permitted n)) = n := by
  induction n with
  | zero => exact ⟨rfl, rfl⟩
  | succ n ih =>
    obtain ⟨hnonce, hcount⟩ := ih (by omega)
    rw [Nat.mod_eq_of_lt (by omega)] at hnonce
    obtain ⟨w', hexec, hnonce'⟩ := permit_nonceEnv hnonce
    have hsucc : permitted (n + 1) = permitted n ++ [(0, permit 7 8 1 0 0 n 0)] := by
      rw [permitted, List.range_succ, List.map_append]
      rfl
    rw [hsucc, executed_append, permits_append, hcount]
    refine ⟨?_, ?_⟩
    · rw [run, Run.run_append, Run.run_cons, Run.run_nil, step, hexec]
      exact hnonce'
    · rw [executed, hexec]
      rfl

theorem permitted_authorised :
    (∀ o, ((run nonceEnv freshWorld (permitted 2)).token 6).nonces o =
      permits o (executed nonceEnv freshWorld (permitted 2)) % 2 ^ 256) ∧
    ((run nonceEnv freshWorld (permitted 2)).token 6).nonces 7 = 2 :=
  ⟨(run_authorised nonceEnv_deployed nonceEnv_oneDigest freshWorld_fresh (permitted 2)).2.1,
    by decide⟩

theorem permitted_wraps :
    ∃ calls : List (Nat × Call 6), Deployed nonceEnv 6 4 5 ∧ OneDigest nonceEnv 6 ∧
      Fresh 6 4 5 freshWorld ∧ ((run nonceEnv freshWorld calls).token 6).nonces 7 ≠
        permits 7 (executed nonceEnv freshWorld calls) := by
  obtain ⟨hnonce, hcount⟩ := executed_permitted (Nat.le_refl (2 ^ 256))
  refine ⟨permitted (2 ^ 256), nonceEnv_deployed, nonceEnv_oneDigest, freshWorld_fresh, ?_⟩
  rw [hnonce, hcount]
  norm_num

end Wrap

end Call

end ArkSwap
