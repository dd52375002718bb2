import ArkSwap.PairRun

/-! What calls that do not take the pair's lock can do to it, alone or nested
in the callback of a swap. -/

namespace ArkSwap

open Checked ArkSwapPair

namespace ArkSwapERC20

variable {t t' : ArkSwapERC20}

theorem Conserved.mint {dst : Address} {value : Nat} (hc : t.Conserved)
    (h : t.mint dst value = .ok t') : t'.Conserved := by
  obtain ⟨hs, -, rfl⟩ := mint_eq_ok.mp h
  exact ⟨by simp [hc.1], hs⟩

theorem Conserved.burn {src : Address} {value : Nat} (hc : t.Conserved)
    (h : t.burn src value = .ok t') : t'.Conserved := by
  obtain ⟨hb, -, rfl⟩ := burn_eq_ok.mp h
  have hsum := Ledger.sum_debit hb
  refine ⟨?_, lt_of_le_of_lt (Nat.sub_le _ _) hc.2⟩
  rw [← hc.1]
  exact Nat.eq_sub_of_add_eq hsum

theorem Conserved.move {src dst : Address} {value : Nat} (hc : t.Conserved)
    (h : value ≤ t.balanceOf src) :
    Conserved { t with balanceOf := Ledger.move t.balanceOf src dst value } :=
  ⟨(Ledger.sum_move h).trans hc.1, hc.2⟩

theorem Conserved.transfer {src dst : Address} {value : Nat} (hc : t.Conserved)
    (h : t.transfer src dst value = .ok t') : t'.Conserved := by
  obtain ⟨hb, -, rfl⟩ := transfer_eq_ok.mp h
  exact hc.move hb

theorem Conserved.issued {dst : Address} {value : Nat} (hc : t.Conserved)
    (h : t.totalSupply + value < Uint.size) : (issued t dst value).Conserved :=
  ⟨by simp [hc.1], h⟩

theorem Conserved.balance_lt (hc : t.Conserved) (a : Address) : t.balanceOf a < Uint.size :=
  lt_of_le_of_lt (hc.1 ▸ Ledger.le_sum t.balanceOf a) hc.2

theorem Conserved.debit_add_lt (hc : t.Conserved) {src dst : Address} {value : Nat}
    (h : value ≤ t.balanceOf src) : Ledger.debit t.balanceOf src value dst + value < Uint.size := by
  have hm := (hc.move h : Conserved
    { t with balanceOf := Ledger.move t.balanceOf src dst value }).balance_lt dst
  simpa [Ledger.move] using hm

/-- Only the zero address could raise its own allowance. -/
theorem approve_frozen {owner : Address} (spender : Address) {value : Nat}
    (h : owner ≠ 0 ∨ value = 0) (hz : ∀ s, t.allowance 0 s = 0) (s : Address) :
    (t.approve owner spender value).allowance 0 s = 0 := by
  by_cases ho : owner = 0
  · subst ho
    have h0 : value = 0 := h.resolve_left (fun hne => hne rfl)
    by_cases hs : s = spender
    · simp [approve, hs, h0]
    · simp [approve, hs, hz]
  · simp [approve, Ne.symm ho, hz]

theorem spendAllowance_frozen {spender src : Address} {value : Nat}
    (h : t.spendAllowance spender src value = .ok t') (hz : ∀ s, t.allowance 0 s = 0) :
    (∀ s, t'.allowance 0 s = 0) ∧ (src = 0 → value = 0) := by
  obtain ⟨-, -, -, ⟨hmax, rfl⟩ | ⟨hv, rfl⟩⟩ := spendAllowance_ok h
  · refine ⟨hz, fun hs => ?_⟩
    rw [hs, hz] at hmax
    exact absurd hmax (by norm_num [Uint.size])
  · have h0 : src = 0 → value = 0 := by
      rintro rfl
      simpa [hz] using hv
    refine ⟨approve_frozen _ ?_ hz, h0⟩
    by_cases hs : src = 0
    · exact .inr (by simp [h0 hs, hs, hz])
    · exact .inl hs

end ArkSwapERC20

/-- What calls that do not take the lock leave as it was, or only raise. -/
structure Beside (pool : Address) (w w' : World) : Prop where
  pair : w'.pair pool = w.pair pool
  supply : (w'.token pool).totalSupply = (w.token pool).totalSupply
  frozen : (∀ s, (w.token pool).allowance 0 s = 0) →
    (∀ s, (w'.token pool).allowance 0 s = 0) ∧ w.balanceOf pool 0 ≤ w'.balanceOf pool 0
  paid : ∀ t, t ≠ pool → w.balanceOf t pool ≤ w'.balanceOf t pool
  conserved : ∀ t, (w.token t).Conserved → (w'.token t).Conserved

namespace Beside

variable {self : Address} {w w' w'' : World}

theorem of_eq (hp : w'.pair self = w.pair self) (ht : w'.token = w.token) :
    Beside self w w' where
  pair := hp
  supply := by rw [ht]
  frozen hz := by simpa [ht, World.balanceOf] using hz
  paid t _ := by simp [ht, World.balanceOf]
  conserved t hc := by rwa [ht]

theorem refl (self : Address) (w : World) : Beside self w w := of_eq rfl rfl

theorem trans (h : Beside self w w') (h' : Beside self w' w'') : Beside self w w'' where
  pair := h'.pair.trans h.pair
  supply := h'.supply.trans h.supply
  frozen hz := ⟨(h'.frozen (h.frozen hz).1).1, (h.frozen hz).2.trans (h'.frozen (h.frozen hz).1).2⟩
  paid t ht := (h.paid t ht).trans (h'.paid t ht)
  conserved t hc := h'.conserved t (h.conserved t hc)

theorem setShares {t : ArkSwapERC20} (hs : t.totalSupply = (w.token self).totalSupply)
    (hf : (∀ s, (w.token self).allowance 0 s = 0) →
      (∀ s, t.allowance 0 s = 0) ∧ (w.token self).balanceOf 0 ≤ t.balanceOf 0)
    (hc : (w.token self).Conserved → t.Conserved) : Beside self w (w.setToken self t) where
  pair := rfl
  supply := by simpa using hs
  frozen hz := by simpa [World.balanceOf] using hf hz
  paid a ha := by rw [World.balanceOf_setToken_of_ne _ ha]
  conserved a h := by
    by_cases ha : a = self
    · subst ha
      simpa using hc h
    · rwa [World.setToken_token_of_ne ha]

theorem setAsset {a : Address} {t : ArkSwapERC20} (ha : a ≠ self)
    (hp : (w.token a).balanceOf self ≤ t.balanceOf self)
    (hc : (w.token a).Conserved → t.Conserved) : Beside self w (w.setToken a t) where
  pair := rfl
  supply := by rw [World.setToken_token_of_ne ha.symm]
  frozen hz := by
    rw [World.setToken_token_of_ne ha.symm, World.balanceOf_setToken_of_ne _ ha.symm]
    exact ⟨hz, le_refl _⟩
  paid b hb := by
    by_cases h : b = a
    · subst h
      simpa [World.balanceOf] using hp
    · rw [World.balanceOf_setToken_of_ne _ h]
  conserved b h := by
    by_cases hb : b = a
    · subst hb
      simpa using hc h
    · rwa [World.setToken_token_of_ne hb]

end Beside

theorem World.transfer_beside {env : Env} {self token src dst : Address} {w w' : World}
    {value : Nat} (ht : token ≠ self) (hs : src ≠ self)
    (h : w.transfer env token src dst value = .ok w') : Beside self w w' := by
  simp only [transfer, bind_eq_ok, pure_eq_ok, Except.ok.injEq] at h
  obtain ⟨t, hb, t', hm, rfl⟩ := h
  refine Beside.setAsset ht ?_ (fun hc => (hc.burn hb).transfer hm)
  obtain ⟨-, -, rfl⟩ := ArkSwapERC20.burn_eq_ok.mp hb
  obtain ⟨-, -, rfl⟩ := ArkSwapERC20.transfer_eq_ok.mp hm
  refine le_trans ?_ (Ledger.le_move hs.symm)
  simp [Ledger.debit_of_ne _ _ hs.symm]

namespace Call

variable {env : Env} {self : Address} {w w' : World}

/-- The calls that take the pair's lock. -/
def Locking : Call self → Prop
  | mint .. | burn .. | swap .. | skim .. | sync => True
  | _ => False

theorem exec_error_of_locked (env : Env) {p : ArkSwapPair} (hp : w.pair self = some p) (hu : p.unlocked = 0)
    {c : Call self} (hc : c.Locking) : ∃ e, exec env w c = .error e := by
  cases c with
  | mint sender dst =>
    obtain ⟨e, he⟩ := lock_locked _ hp hu
    exact ⟨e, by rw [exec, ArkSwapPair.mint, he]; rfl⟩
  | burn sender dst =>
    obtain ⟨e, he⟩ := lock_locked _ hp hu
    exact ⟨e, by rw [exec, ArkSwapPair.burn, he]; rfl⟩
  | swap sender o₀ o₁ dst data =>
    obtain ⟨e, he⟩ := lock_locked _ hp hu
    exact ⟨e, by rw [exec, ArkSwapPair.swap, he]; rfl⟩
  | skim dst =>
    obtain ⟨e, he⟩ := lock_locked _ hp hu
    exact ⟨e, by rw [exec, ArkSwapPair.skim, he]; rfl⟩
  | sync =>
    obtain ⟨e, he⟩ := lock_locked _ hp hu
    exact ⟨e, by rw [exec, ArkSwapPair.sync, he]; rfl⟩
  | _ => exact hc.elim

theorem exec_beside {c : Call self} (hc : ¬ c.Locking)
    (h : exec env w c = .ok w') : Beside self w w' := by
  cases c with
  | transfer sender dst value =>
    simp only [exec, bind_eq_ok, pure_eq_ok, Except.ok.injEq] at h
    obtain ⟨t, ht, rfl⟩ := h
    obtain ⟨-, -, rfl⟩ := ArkSwapERC20.transfer_eq_ok.mp ht
    exact Beside.setShares rfl (fun hz => ⟨hz, Ledger.le_move sender.2.1.symm⟩)
      (fun hcons => hcons.transfer ht)
  | transferFrom sender src dst value =>
    simp only [exec, ArkSwapERC20.transferFrom, bind_eq_ok, pure_eq_ok, Except.ok.injEq] at h
    obtain ⟨t, ⟨t₁, hspend, ht⟩, rfl⟩ := h
    obtain ⟨hsupply, hbal, -, -⟩ := ArkSwapERC20.spendAllowance_ok hspend
    have hcons : (w.token self).Conserved → t.Conserved := fun hcons =>
      ArkSwapERC20.Conserved.transfer (by rwa [ArkSwapERC20.Conserved, hbal, hsupply]) ht
    obtain ⟨hle, -, rfl⟩ := ArkSwapERC20.transfer_eq_ok.mp ht
    refine Beside.setShares hsupply ?_ hcons
    intro hz
    obtain ⟨hz', h0⟩ := ArkSwapERC20.spendAllowance_frozen hspend hz
    refine ⟨hz', ?_⟩
    rw [← hbal]
    by_cases hs : src = 0
    · simp [h0 hs]
    · exact Ledger.le_move (Ne.symm hs)
  | approve sender spender value =>
    obtain rfl := Except.ok.inj h
    exact Beside.setShares rfl
      (fun hz => ⟨ArkSwapERC20.approve_frozen _ (.inl sender.2.1) hz, le_refl _⟩)
      (fun hcons => hcons)
  | permit owner spender value deadline v r s =>
    simp only [exec, bind_eq_ok, pure_eq_ok, Except.ok.injEq] at h
    obtain ⟨t, ht, rfl⟩ := h
    obtain ⟨-, hne, -, rfl⟩ := ArkSwapERC20.permit_ok ht
    exact Beside.setShares rfl
      (fun hz => ⟨ArkSwapERC20.approve_frozen _ (.inl hne) hz, le_refl _⟩) (fun hcons => hcons)
  | pay token src dst value => exact World.transfer_beside token.2 src.2 h
  | issue token dst value =>
    simp only [exec, bind_eq_ok, pure_eq_ok, Except.ok.injEq] at h
    obtain ⟨t, ht, rfl⟩ := h
    refine Beside.setAsset token.2 ?_ (fun hcons => hcons.mint ht)
    obtain ⟨-, -, rfl⟩ := ArkSwapERC20.mint_eq_ok.mp ht
    exact Ledger.le_credit _ _ _ _
  | setFeeTo sender feeTo =>
    simp only [exec, bind_eq_ok, pure_eq_ok, Except.ok.injEq] at h
    obtain ⟨f, -, rfl⟩ := h
    exact Beside.of_eq rfl rfl
  | setFeeToSetter sender feeToSetter =>
    simp only [exec, bind_eq_ok, pure_eq_ok, Except.ok.injEq] at h
    obtain ⟨f, -, rfl⟩ := h
    exact Beside.of_eq rfl rfl
  | _ => exact (hc trivial).elim

theorem not_locking_of_exec {p : ArkSwapPair} (hp : w.pair self = some p) (hu : p.unlocked = 0)
    {c : Call self} (h : exec env w c = .ok w') : ¬c.Locking := by
  intro hl
  obtain ⟨e, he⟩ := exec_error_of_locked env hp hu hl
  rw [he] at h
  cases h

section Locked

variable {p : ArkSwapPair} {R : World → World → Prop}

/-- Under the lock a callback does what its calls do, none of which takes the
lock: a relation that these keep relates its two ends. -/
theorem execAll_locked (hrefl : ∀ w, R w w) (htrans : ∀ {u v w}, R u v → R v w → R u w)
    (hexec : ∀ {v v' : World} {c : Call self}, ¬c.Locking → exec env v c = .ok v' → R v v')
    (hp : w.pair self = some p) (hu : p.unlocked = 0) {cs : List (Call self)}
    (h : execAll env w cs = .ok w') : R w w' := by
  induction cs generalizing w with
  | nil =>
    obtain rfl := Except.ok.inj h
    exact hrefl w
  | cons c cs ih =>
    rw [execAll, bind_eq_ok] at h
    obtain ⟨w₁, hc, hcs⟩ := h
    have hl := not_locking_of_exec hp hu hc
    exact htrans (hexec hl hc) (ih ((exec_beside hl hc).pair.trans hp) hcs)

theorem callback_locked (hrefl : ∀ w, R w w) (htrans : ∀ {u v w}, R u v → R v w → R u w)
    (hexec : ∀ {v v' : World} {c : Call self}, ¬c.Locking → exec env v c = .ok v' → R v v')
    (hp : w.pair self = some p) (hu : p.unlocked = 0) {dst : Address}
    {data : Option (List (Call self))} (h : callback (execData env dst data) w = .ok w') :
    R w w' := by
  cases data with
  | none =>
    obtain rfl := Except.ok.inj h
    exact hrefl w
  | some cs =>
    simp only [callback, execData] at h
    by_cases hd : dst = self
    · rw [if_pos hd] at h
      cases h
    · rw [if_neg hd] at h
      exact execAll_locked hrefl htrans hexec hp hu h

/-- It can neither enter the pair again nor take anything from it. -/
theorem callback_beside (hp : w.pair self = some p) (hu : p.unlocked = 0) {dst : Address}
    {data : Option (List (Call self))} (h : callback (execData env dst data) w = .ok w') :
    Beside self w w' :=
  callback_locked (Beside.refl self) Beside.trans exec_beside hp hu h

end Locked

end Call

end ArkSwap
