import ArkSwap.PairAuthority
import ArkSwap.PairFlow

/-! The price accumulators of a pair are the time integral of the price that
each block left, in arithmetic modulo `2 ^ 256`. -/

namespace ArkSwap

open Checked ArkSwapPair

/-- An operation that wrote the reserves: when it ran and what it left. -/
structure Sample where
  time : Nat
  reserve0 : Nat
  reserve1 : Nat
  deriving DecidableEq

namespace Sample

/-- The reserves of a pair, seen at a time. -/
def of (time : Nat) (p : ArkSwapPair) : Sample := ⟨time, p.reserve0, p.reserve1⟩

/-- A reserve over the other, in 112.112 bits. -/
def spot (reserveIn reserveOut : Nat) : Nat :=
  if reserveIn = 0 ∨ reserveOut = 0 then 0 else reserveOut * 2 ^ 112 / reserveIn

def price0 (s : Sample) : Nat := spot s.reserve0 s.reserve1

def price1 (s : Sample) : Nat := spot s.reserve1 s.reserve0

/-- The last sample of each time. -/
def blockEnds : List Sample → List Sample
  | s :: t :: rest => if s.time = t.time then blockEnds (t :: rest) else s :: blockEnds (t :: rest)
  | samples => samples

/-- Each price for as long as it stood. -/
def integral (price : Sample → Nat) : List Sample → Nat
  | s :: t :: rest => price s * (t.time - s.time) + integral price (t :: rest)
  | _ => 0

/-- Times do not decrease, and no gap reaches `2 ^ 32` seconds. -/
def Spaced (samples : List Sample) : Prop :=
  samples.IsChain fun s t => s.time ≤ t.time ∧ t.time < s.time + 2 ^ 32

instance Spaced.decidable (samples : List Sample) : Decidable (Spaced samples) :=
  inferInstanceAs (Decidable (samples.IsChain _))

theorem integral_cons_congr (price : Sample → Nat) (s : Sample) {l l' : List Sample}
    (hhead : l.head?.map time = l'.head?.map time) (h : integral price l = integral price l') :
    integral price (s :: l) = integral price (s :: l') := by
  match l, l' with
  | [], [] => rfl
  | [], _ :: _ => simp at hhead
  | _ :: _, [] => simp at hhead
  | t :: l, t' :: l' =>
    have ht : t.time = t'.time := by simpa using hhead
    rw [integral, integral, h, ht]

theorem blockEnds_head (samples : List Sample) :
    (blockEnds samples).head?.map time = samples.head?.map time := by
  induction samples with
  | nil => rfl
  | cons s samples ih =>
    cases samples with
    | nil => rfl
    | cons t rest =>
      rw [blockEnds]
      split_ifs with hst
      · rw [ih]
        exact congrArg some hst.symm
      · rfl

/-- A price fits in 224 bits, so that it may stand for `2 ^ 32` seconds. -/
theorem spot_mul_lt {r₀ r₁ length : Nat} (h : r₁ ≤ Uint.max112) (hl : length < 2 ^ 32) :
    spot r₀ r₁ * length < Uint.size := by
  have hspot : spot r₀ r₁ < 2 ^ 224 := by
    rw [spot]
    split_ifs
    · norm_num
    · refine lt_of_le_of_lt (Nat.div_le_self _ _) ?_
      unfold Uint.max112 at h
      omega
  calc spot r₀ r₁ * length ≤ 2 ^ 224 * length := Nat.mul_le_mul_right _ hspot.le
    _ < 2 ^ 224 * 2 ^ 32 := Nat.mul_lt_mul_of_pos_left hl (by norm_num)

theorem integral_blockEnds (price : Sample → Nat) (samples : List Sample) :
    integral price (blockEnds samples) = integral price samples := by
  induction samples with
  | nil => rfl
  | cons s samples ih =>
    cases samples with
    | nil => rfl
    | cons t rest =>
      rw [blockEnds]
      split_ifs with hst
      · rw [ih, integral, hst, Nat.sub_self, Nat.mul_zero, Nat.zero_add]
      · exact integral_cons_congr price s (blockEnds_head _) ih

end Sample

namespace ArkSwapPair

/-- Storage that agrees in what `_update` reads and writes. -/
structure SameOracle (p q : ArkSwapPair) : Prop where
  reserve0 : q.reserve0 = p.reserve0
  reserve1 : q.reserve1 = p.reserve1
  time : q.blockTimestampLast = p.blockTimestampLast
  price0 : q.price0CumulativeLast = p.price0CumulativeLast
  price1 : q.price1CumulativeLast = p.price1CumulativeLast

theorem SameOracle.refl (p : ArkSwapPair) : SameOracle p p := ⟨rfl, rfl, rfl, rfl, rfl⟩

/-- An accumulator after `_update` at a time. -/
def advanced (accumulated last timestamp reserveOut reserveIn : Nat) : Nat :=
  if Uint.sub32 (Uint.cast32 timestamp) last > 0 ∧ reserveOut ≠ 0 ∧ reserveIn ≠ 0 then
    Uint.add accumulated (Uint.mul (UQ112x112.encode reserveOut / reserveIn)
      (Uint.sub32 (Uint.cast32 timestamp) last))
  else accumulated

/-- Storage before and after an operation that updates the reserves. -/
structure Advances (timestamp : Nat) (p q : ArkSwapPair) : Prop where
  fits0 : q.reserve0 ≤ Uint.max112
  fits1 : q.reserve1 ≤ Uint.max112
  time : q.blockTimestampLast = Uint.cast32 timestamp
  price0 : q.price0CumulativeLast =
    advanced p.price0CumulativeLast p.blockTimestampLast timestamp p.reserve1 p.reserve0
  price1 : q.price1CumulativeLast =
    advanced p.price1CumulativeLast p.blockTimestampLast timestamp p.reserve0 p.reserve1

variable {p p' q q' : ArkSwapPair}

theorem update_advances {timestamp b₀ b₁ : Nat} (hp : SameOracle p p')
    (h : p'.update timestamp b₀ b₁ p.reserve0 p.reserve1 = .ok q) (hq : SameOracle q q') :
    Advances timestamp p q' := by
  obtain ⟨f₀, f₁, e₀, e₁, -⟩ := update_ok h
  refine ⟨by rw [hq.reserve0, e₀]; exact f₀, by rw [hq.reserve1, e₁]; exact f₁, ?_, ?_, ?_⟩
  all_goals
    simp only [update, UQ112x112.uqdiv, bind_eq_ok, require_eq_ok, ite_eq_ok, Uint.div_eq_ok,
      pure_eq_ok, Except.ok.injEq, hp.time] at h
    obtain ⟨-, -, ⟨hc, _, ⟨-, rfl⟩, _, ⟨-, rfl⟩, _, rfl, rfl⟩ | ⟨hc, _, rfl, rfl⟩⟩ := h
  · exact hq.time
  · exact hq.time
  · rw [hq.price0, advanced, if_pos ⟨hc.1, hc.2.2, hc.2.1⟩, ← hp.price0]
  · rw [hq.price0, advanced, if_neg fun h => hc ⟨h.1, h.2.2, h.2.1⟩, ← hp.price0]
  · rw [hq.price1, advanced, if_pos hc, ← hp.price1]
  · rw [hq.price1, advanced, if_neg hc, ← hp.price1]

theorem mintFee_sameOracle {lp lp' : ArkSwapERC20} {feeTo : Address} {r₀ r₁ : Nat} {feeOn : Bool}
    (h : mintFee p lp feeTo r₀ r₁ = .ok (feeOn, q, lp')) : SameOracle p q := by
  simp only [mintFee, ite_eq_ok, bind_eq_ok, pure_eq_ok, Except.ok.injEq, Prod.mk.injEq] at h
  rcases h with ⟨-, ⟨-, k, -, K, -, k', -, ⟨-, d, -, n, -, m, -, s, -, L, -, hL⟩ |
    ⟨-, -, rfl, -⟩⟩ | ⟨-, -, rfl, -⟩⟩ | ⟨-, ⟨-, -, rfl, -⟩ | ⟨-, -, rfl, -⟩⟩
  · rcases hL with ⟨-, lp₁, -, -, rfl, -⟩ | ⟨-, -, rfl, -⟩
    · exact .refl p
    · exact .refl p
  · exact .refl p
  · exact .refl p
  · exact ⟨rfl, rfl, rfl, rfl, rfl⟩
  · exact .refl p

theorem recordK_sameOracle {feeOn : Bool} (h : recordK feeOn p = .ok q) : SameOracle p q := by
  cases feeOn with
  | false =>
    obtain rfl : p = q := by simpa [recordK] using h
    exact .refl p
  | true =>
    simp only [recordK, if_true, bind_eq_ok, pure_eq_ok, Except.ok.injEq] at h
    obtain ⟨_, -, rfl⟩ := h
    exact ⟨rfl, rfl, rfl, rfl, rfl⟩

end ArkSwapPair

theorem transfer_timestamp {env : Env} {w w' : World} {token src dst : Address} {value : Nat}
    (h : w.transfer env token src dst value = .ok w') : w'.timestamp = w.timestamp := by
  simp only [World.transfer, bind_eq_ok, pure_eq_ok, Except.ok.injEq] at h
  obtain ⟨-, -, -, -, rfl⟩ := h
  rfl

theorem sendOut_keeps {env : Env} {w w' : World} {token src dst : Address} {value : Nat}
    (h : sendOut env w token src dst value = .ok w') :
    w'.pair = w.pair ∧ w'.timestamp = w.timestamp := by
  rw [sendOut, ite_eq_ok, safeTransfer_eq_ok] at h
  rcases h with ⟨-, h⟩ | ⟨-, h⟩
  · exact ⟨transfer_pair h, transfer_timestamp h⟩
  · obtain rfl := Except.ok.inj h
    exact ⟨rfl, rfl⟩

namespace Call

variable {env : Env} {self : Address} {w w' : World} {p q : ArkSwapPair} {c : Call self}

theorem callback_timestamp (hp : w.pair self = some p) (hu : p.unlocked = 0) {dst : Address}
    {data : Option (List (Call self))} (h : callback (execData env dst data) w = .ok w') :
    w'.timestamp = w.timestamp :=
  callback_locked (R := fun v v' => v'.timestamp = v.timestamp) (fun _ => rfl)
    (fun huv hvw => hvw.trans huv) exec_timestamp hp hu h

/-- The calls that write the reserves. -/
def Writes : Call self → Bool
  | mint .. | burn .. | swap .. | sync => true
  | _ => false

theorem lock_oracle {α : Type} {a : α} {R : ArkSwapPair → ArkSwapPair → Prop}
    (hR : ∀ p q, R { p with unlocked := 0 } q → R p { q with unlocked := 1 })
    {body : World → Except String (α × World)} (hp : w.pair self = some p)
    (h : lock w self body = .ok (a, w'))
    (hbody : ∀ w₀ p₀ w₁, w₀.pair self = some p₀ → p₀.unlocked = 0 → w₀.timestamp = w.timestamp →
      body w₀ = .ok (a, w₁) → ∃ q, w₁.pair self = some q ∧ R p₀ q) :
    ∃ q, w'.pair self = some q ∧ R p q := by
  obtain ⟨p', w₁, q, hp', -, hb, hq, rfl⟩ := lock_eq_ok.mp h
  obtain rfl : p = p' := Option.some.inj (hp.symm.trans hp')
  obtain ⟨q', hq', hr⟩ := hbody _ _ w₁ (World.setPair_pair _ _ _) rfl rfl hb
  obtain rfl : q = q' := Option.some.inj (hq.symm.trans hq')
  exact ⟨_, World.setPair_pair _ _ _, hR p q hr⟩

theorem advances_unlocked {timestamp : Nat} (p q : ArkSwapPair)
    (h : Advances timestamp { p with unlocked := 0 } q) :
    Advances timestamp p { q with unlocked := 1 } :=
  ⟨h.fits0, h.fits1, h.time, h.price0, h.price1⟩

theorem sameOracle_unlocked (p q : ArkSwapPair) (h : SameOracle { p with unlocked := 0 } q) :
    SameOracle p { q with unlocked := 1 } := ⟨h.reserve0, h.reserve1, h.time, h.price0, h.price1⟩

theorem mint_advances {sender dst : Address} {L : Nat} (hp : w.pair self = some p)
    (h : ArkSwapPair.mint w self sender dst = .ok (L, w')) :
    ∃ q, w'.pair self = some q ∧ Advances w.timestamp p q := by
  refine lock_oracle advances_unlocked hp h (fun w₀ p₀ w₁ hp₀ _ htime hb => ?_)
  simp only [bind_eq_ok, World.storage_eq_ok, pure_eq_ok, Except.ok.injEq, Prod.mk.injEq] at hb
  obtain ⟨p₁, hp₁, _, -, _, -, ⟨feeOn, q₁, lp₁⟩, hfee, _, -, -, -, lp₃, -, q₂, hupd, q₃, hrec, -,
    rfl⟩ := hb
  obtain rfl : p₀ = p₁ := Option.some.inj (hp₀.symm.trans hp₁)
  rw [htime] at hupd
  exact ⟨q₃, World.setPair_pair _ _ _,
    update_advances (mintFee_sameOracle hfee) hupd (recordK_sameOracle hrec)⟩

theorem burn_advances {sender dst : Address} {a₀ a₁ : Nat} (hp : w.pair self = some p)
    (h : ArkSwapPair.burn env w self sender dst = .ok ((a₀, a₁), w')) :
    ∃ q, w'.pair self = some q ∧ Advances w.timestamp p q := by
  refine lock_oracle advances_unlocked hp h (fun w₀ p₀ w₁ hp₀ _ htime hb => ?_)
  simp only [bind_eq_ok, World.storage_eq_ok, safeTransfer_eq_ok, pure_eq_ok, Except.ok.injEq,
    Prod.mk.injEq] at hb
  obtain ⟨p₁, hp₁, ⟨feeOn, q₁, lp₁⟩, hfee, _, -, _, -, _, -, _, -, -, -, lp₂, -, w₂, ht₀, w₃, ht₁,
    q₂, hupd, q₃, hrec, -, rfl⟩ := hb
  obtain rfl : p₀ = p₁ := Option.some.inj (hp₀.symm.trans hp₁)
  have htime' : w₃.timestamp = w.timestamp :=
    (transfer_timestamp ht₁).trans ((transfer_timestamp ht₀).trans htime)
  rw [htime'] at hupd
  exact ⟨q₃, World.setPair_pair _ _ _,
    update_advances (mintFee_sameOracle hfee) hupd (recordK_sameOracle hrec)⟩

theorem swap_advances {sender dst : Address} {o₀ o₁ : Nat} {data : Option (List (Call self))}
    (hp : w.pair self = some p)
    (h : ArkSwapPair.swap env w self sender o₀ o₁ dst (execData env dst data) = .ok ((), w')) :
    ∃ q, w'.pair self = some q ∧ Advances w.timestamp p q := by
  refine lock_oracle advances_unlocked hp h (fun w₀ p₀ w₁ hp₀ hu htime hb => ?_)
  simp only [bind_eq_ok, World.storage_eq_ok, pure_eq_ok, Except.ok.injEq, Prod.mk.injEq] at hb
  obtain ⟨-, -, p₁, hp₁, -, -, -, -, w₂, ht₀, w₃, ht₁, w₄, hcall, -, -, -, -, q₁, hq₁, q₂, hupd, -,
    rfl⟩ := hb
  obtain rfl : p₀ = p₁ := Option.some.inj (hp₀.symm.trans hp₁)
  have hpair : w₃.pair self = some p₀ := by
    rw [(sendOut_keeps ht₁).1, (sendOut_keeps ht₀).1, hp₀]
  obtain rfl : q₁ = p₀ :=
    Option.some.inj (hq₁.symm.trans ((callback_beside hpair hu hcall).pair.trans hpair))
  have htime' : w₄.timestamp = w.timestamp :=
    (callback_timestamp hpair hu hcall).trans
      ((sendOut_keeps ht₁).2.trans ((sendOut_keeps ht₀).2.trans htime))
  rw [htime'] at hupd
  exact ⟨q₂, World.setPair_pair _ _ _, update_advances (.refl _) hupd (.refl _)⟩

theorem sync_advances (hp : w.pair self = some p) (h : ArkSwapPair.sync w self = .ok ((), w')) :
    ∃ q, w'.pair self = some q ∧ Advances w.timestamp p q := by
  refine lock_oracle advances_unlocked hp h (fun w₀ p₀ w₁ hp₀ _ htime hb => ?_)
  simp only [bind_eq_ok, World.storage_eq_ok, pure_eq_ok, Except.ok.injEq, Prod.mk.injEq] at hb
  obtain ⟨p₁, hp₁, q₁, hupd, -, rfl⟩ := hb
  obtain rfl : p₀ = p₁ := Option.some.inj (hp₀.symm.trans hp₁)
  rw [htime] at hupd
  exact ⟨q₁, World.setPair_pair _ _ _, update_advances (.refl _) hupd (.refl _)⟩

theorem skim_sameOracle {dst : Address} (hp : w.pair self = some p)
    (h : ArkSwapPair.skim env w self dst = .ok ((), w')) :
    ∃ q, w'.pair self = some q ∧ SameOracle p q := by
  refine lock_oracle sameOracle_unlocked hp h (fun w₀ p₀ w₁ hp₀ _ _ hb => ?_)
  simp only [bind_eq_ok, World.storage_eq_ok, safeTransfer_eq_ok, pure_eq_ok, Except.ok.injEq,
    Prod.mk.injEq] at hb
  obtain ⟨p₁, -, _, -, w₂, ht₀, _, -, w₃, ht₁, -, rfl⟩ := hb
  exact ⟨p₀, by rw [transfer_pair ht₁, transfer_pair ht₀, hp₀], .refl _⟩

/-- A call either writes the reserves or leaves the prices alone. -/
theorem exec_oracle (hp : w.pair self = some p) (h : exec env w c = .ok w') :
    ∃ q, w'.pair self = some q ∧
      (c.Writes = true ∧ Advances w.timestamp p q ∨ c.Writes = false ∧ SameOracle p q) := by
  have hbeside : ¬c.Locking → c.Writes = false → ∃ q, w'.pair self = some q ∧
      (c.Writes = true ∧ Advances w.timestamp p q ∨ c.Writes = false ∧ SameOracle p q) :=
    fun hl hw => ⟨p, (exec_beside hl h).pair.trans hp, .inr ⟨hw, .refl p⟩⟩
  cases c with
  | mint sender dst =>
    simp only [exec, bind_eq_ok, pure_eq_ok, Except.ok.injEq] at h
    obtain ⟨⟨L, w₂⟩, hm, rfl⟩ := h
    obtain ⟨q, hq, ha⟩ := mint_advances hp hm
    exact ⟨q, hq, .inl ⟨rfl, ha⟩⟩
  | burn sender dst =>
    simp only [exec, bind_eq_ok, pure_eq_ok, Except.ok.injEq] at h
    obtain ⟨⟨⟨a₀, a₁⟩, w₂⟩, hb, rfl⟩ := h
    obtain ⟨q, hq, ha⟩ := burn_advances hp hb
    exact ⟨q, hq, .inl ⟨rfl, ha⟩⟩
  | swap sender o₀ o₁ dst data =>
    simp only [exec, bind_eq_ok, pure_eq_ok, Except.ok.injEq] at h
    obtain ⟨⟨⟨⟩, w₂⟩, hs, rfl⟩ := h
    obtain ⟨q, hq, ha⟩ := swap_advances hp hs
    exact ⟨q, hq, .inl ⟨rfl, ha⟩⟩
  | sync =>
    simp only [exec, bind_eq_ok, pure_eq_ok, Except.ok.injEq] at h
    obtain ⟨⟨⟨⟩, w₂⟩, hs, rfl⟩ := h
    obtain ⟨q, hq, ha⟩ := sync_advances hp hs
    exact ⟨q, hq, .inl ⟨rfl, ha⟩⟩
  | skim dst =>
    simp only [exec, bind_eq_ok, pure_eq_ok, Except.ok.injEq] at h
    obtain ⟨⟨⟨⟩, w₂⟩, hs, rfl⟩ := h
    obtain ⟨q, hq, ha⟩ := skim_sameOracle hp hs
    exact ⟨q, hq, .inr ⟨rfl, ha⟩⟩
  | transfer | transferFrom | approve | permit | pay | issue | setFeeTo | setFeeToSetter =>
    exact hbeside id rfl

/-- What the calls of a run left in the reserves, one sample for each call that
wrote them. -/
def samples (env : Env) : World → List (Nat × Call self) → List Sample
  | _, [] => []
  | w, (ts, c) :: calls =>
      (match exec env { w with timestamp := ts } c with
        | .ok w' => if c.Writes then (w'.pair self).toList.map (Sample.of ts) else []
        | .error _ => []) ++ samples env (step env w (ts, c)) calls

end Call

/-- Storage that the last sample describes. -/
def Tracks : Option Sample → ArkSwapPair → Prop
  | none, p => p.reserve0 = 0
  | some s, p => s = Sample.of s.time p ∧ p.blockTimestampLast = Uint.cast32 s.time

/-- A pair after the last sample, with its accumulators in range. -/
structure Kept (last : Option Sample) (p : ArkSwapPair) : Prop where
  tracks : Tracks last p
  fits0 : p.reserve0 ≤ Uint.max112
  fits1 : p.reserve1 ≤ Uint.max112
  price0_lt : p.price0CumulativeLast < Uint.size
  price1_lt : p.price1CumulativeLast < Uint.size

/-- What the last sample adds to an accumulator until the next one. -/
def gained (price : Sample → Nat) (last : Option Sample) (t : Sample) : Nat :=
  last.elim 0 fun s => price s * (t.time - s.time)

theorem Sample.integral_next (price : Sample → Nat) (last : Option Sample) (t : Sample)
    (rest : List Sample) : integral price (last.toList ++ t :: rest) =
      gained price last t + integral price (t :: rest) := by
  cases last with
  | none => exact (Nat.zero_add _).symm
  | some s => rfl

theorem Sample.Spaced.next {last : Option Sample} {t : Sample} {rest : List Sample}
    (h : Spaced (last.toList ++ t :: rest)) :
    (∀ s ∈ last, s.time ≤ t.time ∧ t.time < s.time + 2 ^ 32) ∧
      Spaced ((some t).toList ++ rest) := by
  cases last with
  | none => exact ⟨fun _ hs => absurd hs (Option.not_mem_none _), h⟩
  | some s =>
    obtain ⟨hst, hrest⟩ := List.isChain_cons_cons.mp h
    refine ⟨fun s' hs' => ?_, hrest⟩
    obtain rfl := Option.some.inj hs'
    exact hst

/-- The elapsed time is right across the wrap of the 32-bit clock. -/
theorem sub32_cast32 {t t' : Nat} (h : t ≤ t') (h' : t' < t + 2 ^ 32) :
    Uint.sub32 (Uint.cast32 t') (Uint.cast32 t) = t' - t := by
  unfold Uint.sub32 Uint.cast32
  omega

theorem advanced_lt {a last timestamp rOut rIn : Nat} (h : a < Uint.size) :
    advanced a last timestamp rOut rIn < Uint.size := by
  rw [advanced]
  split_ifs
  · exact Nat.mod_lt _ (by norm_num [Uint.size])
  · exact h

theorem advanced_eq {a t t' rOut rIn : Nat} (ha : a < Uint.size) (ho : rOut ≤ Uint.max112)
    (h : t ≤ t') (h' : t' < t + 2 ^ 32) :
    advanced a (Uint.cast32 t) t' rOut rIn =
      (a + Sample.spot rIn rOut * (t' - t)) % Uint.size := by
  rw [advanced, sub32_cast32 h h']
  split_ifs with hc
  · have he : UQ112x112.encode rOut = rOut * 2 ^ 112 := by
      refine Nat.mod_eq_of_lt ?_
      unfold Uint.max112 at ho
      omega
    rw [Uint.add, Uint.mul, he, Nat.add_mod_mod, Sample.spot, if_neg fun hz => hz.elim hc.2.2 hc.2.1]
  · have hz : Sample.spot rIn rOut * (t' - t) = 0 := by
      rw [Sample.spot]
      split_ifs with hz
      · exact Nat.zero_mul _
      · have hlen : t' - t = 0 := by
          by_contra hne
          exact hc ⟨Nat.pos_of_ne_zero hne, fun h0 => hz (.inr h0), fun h0 => hz (.inl h0)⟩
        rw [hlen, Nat.mul_zero]
    rw [hz, Nat.add_zero, Nat.mod_eq_of_lt ha]

namespace Kept

variable {last : Option Sample} {p q : ArkSwapPair} {ts : Nat}

theorem initial (t₀ t₁ : Address) : Kept none (.initial t₀ t₁) where
  tracks := rfl
  fits0 := Nat.zero_le _
  fits1 := Nat.zero_le _
  price0_lt := by norm_num [ArkSwapPair.initial, Uint.size]
  price1_lt := by norm_num [ArkSwapPair.initial, Uint.size]

theorem same (h : Kept last p) (hs : SameOracle p q) : Kept last q where
  tracks := by
    cases last with
    | none => exact hs.reserve0.trans h.tracks
    | some s =>
      refine ⟨h.tracks.1.trans ?_, hs.time.trans h.tracks.2⟩
      rw [Sample.of, Sample.of, hs.reserve0, hs.reserve1]
  fits0 := hs.reserve0 ▸ h.fits0
  fits1 := hs.reserve1 ▸ h.fits1
  price0_lt := hs.price0 ▸ h.price0_lt
  price1_lt := hs.price1 ▸ h.price1_lt

theorem advance (h : Kept last p) (ha : Advances ts p q) : Kept (some (Sample.of ts q)) q where
  tracks := ⟨rfl, ha.time⟩
  fits0 := ha.fits0
  fits1 := ha.fits1
  price0_lt := ha.price0 ▸ advanced_lt h.price0_lt
  price1_lt := ha.price1 ▸ advanced_lt h.price1_lt

theorem gained_of_advance (h : Kept last p) (ha : Advances ts p q)
    (hlast : ∀ s ∈ last, s.time ≤ ts ∧ ts < s.time + 2 ^ 32) :
    q.price0CumulativeLast =
        (p.price0CumulativeLast + gained Sample.price0 last (Sample.of ts q)) % Uint.size ∧
      q.price1CumulativeLast =
        (p.price1CumulativeLast + gained Sample.price1 last (Sample.of ts q)) % Uint.size := by
  rw [ha.price0, ha.price1]
  cases last with
  | none =>
    have hzero : p.reserve0 = 0 := h.tracks
    rw [advanced, if_neg fun hc => hc.2.2 hzero, advanced, if_neg fun hc => hc.2.1 hzero]
    exact ⟨(Nat.mod_eq_of_lt h.price0_lt).symm, (Nat.mod_eq_of_lt h.price1_lt).symm⟩
  | some s =>
    obtain ⟨hle, hlt⟩ := hlast s rfl
    obtain ⟨hs, htime⟩ := h.tracks
    rw [htime, advanced_eq h.price0_lt h.fits1 hle hlt, advanced_eq h.price1_lt h.fits0 hle hlt]
    have h₀ : s.reserve0 = p.reserve0 := congrArg Sample.reserve0 hs
    have h₁ : s.reserve1 = p.reserve1 := congrArg Sample.reserve1 hs
    rw [← h₀, ← h₁]
    exact ⟨rfl, rfl⟩

end Kept

namespace Call

theorem run_prices {last : Option Sample} (hk : Kept last p) (hp : w.pair self = some p)
    {calls : List (Nat × Call self)} (hs : Sample.Spaced (last.toList ++ samples env w calls)) :
    ∃ q, (run env w calls).pair self = some q ∧
      q.price0CumulativeLast = (p.price0CumulativeLast +
        Sample.integral Sample.price0 (last.toList ++ samples env w calls)) % Uint.size ∧
      q.price1CumulativeLast = (p.price1CumulativeLast +
        Sample.integral Sample.price1 (last.toList ++ samples env w calls)) % Uint.size ∧
      ∀ s ∈ samples env w calls, s.reserve0 ≤ Uint.max112 ∧ s.reserve1 ≤ Uint.max112 := by
  induction calls generalizing w p last with
  | nil =>
    refine ⟨p, hp, ?_, ?_, by simp [samples]⟩
    · cases last <;> exact (Nat.mod_eq_of_lt hk.price0_lt).symm
    · cases last <;> exact (Nat.mod_eq_of_lt hk.price1_lt).symm
  | cons c calls ih =>
    obtain ⟨ts, c⟩ := c
    rcases hx : exec env { w with timestamp := ts } c with e | w'
    · have hstep : step env w (ts, c) = { w with timestamp := ts } := by
        simp only [step, hx, attempt]
      simp only [samples, hx, List.nil_append] at hs ⊢
      rw [run, Run.run_cons, ← run]
      exact ih hk (by rw [hstep]; exact hp) hs
    · have hstep : step env w (ts, c) = w' := by
        simp only [step, hx, attempt]
      rw [run, Run.run_cons, ← run]
      obtain ⟨q, hq, ⟨hw, ha⟩ | ⟨hw, hsame⟩⟩ := exec_oracle (w := { w with timestamp := ts }) hp hx
      · simp only [samples, hx, hw, if_true, hq, Option.toList_some, List.map_cons, List.map_nil,
          List.singleton_append] at hs ⊢
        obtain ⟨hlast, hrest⟩ := Sample.Spaced.next hs
        obtain ⟨hg₀, hg₁⟩ := hk.gained_of_advance ha hlast
        obtain ⟨q', hq', h₀, h₁, hfits⟩ := ih (hk.advance ha) (by rw [hstep]; exact hq) hrest
        refine ⟨q', hq', ?_, ?_, ?_⟩
        · rw [h₀, hg₀, Nat.mod_add_mod, Sample.integral_next, Nat.add_assoc]
          rfl
        · rw [h₁, hg₁, Nat.mod_add_mod, Sample.integral_next, Nat.add_assoc]
          rfl
        · intro s hs
          rcases List.mem_cons.mp hs with rfl | hs
          · exact ⟨ha.fits0, ha.fits1⟩
          · exact hfits s hs
      · simp only [samples, hx, hw, Bool.false_eq_true, if_false, List.nil_append] at hs ⊢
        rw [← hsame.price0, ← hsame.price1]
        exact ih (hk.same hsame) (by rw [hstep]; exact hq) hs

/-- From deployment on, each accumulator is the sum over the blocks of the price
that the block left times the time until the next, and no product in it needs
more than 256 bits. -/
theorem prices_integrate {t₀ t₁ : Address} (hp : w.pair self = some (.initial t₀ t₁))
    {calls : List (Nat × Call self)} (hs : Sample.Spaced (samples env w calls)) :
    ∃ q, (run env w calls).pair self = some q ∧
      q.price0CumulativeLast =
        Sample.integral Sample.price0 (Sample.blockEnds (samples env w calls)) % Uint.size ∧
      q.price1CumulativeLast =
        Sample.integral Sample.price1 (Sample.blockEnds (samples env w calls)) % Uint.size ∧
      ∀ s ∈ samples env w calls, ∀ length < 2 ^ 32,
        s.price0 * length < Uint.size ∧ s.price1 * length < Uint.size := by
  obtain ⟨q, hq, h₀, h₁, hfits⟩ := run_prices (Kept.initial t₀ t₁) hp hs
  refine ⟨q, hq, ?_, ?_, fun s hs length hl => ?_⟩
  · rw [h₀, Sample.integral_blockEnds]
    exact congrArg (· % Uint.size) (Nat.zero_add _)
  · rw [h₁, Sample.integral_blockEnds]
    exact congrArg (· % Uint.size) (Nat.zero_add _)
  · exact ⟨Sample.spot_mul_lt (hfits s hs).2 hl, Sample.spot_mul_lt (hfits s hs).1 hl⟩

/-- A deposit, then reserves that change twice in one block and again after the
clock has wrapped. -/
def pricedCalls : List (Nat × Call 6) :=
  firstDeposit ++ [(2 ^ 32 - 5, .pay firstToken holder 6 1000), (2 ^ 32 - 5, .sync),
    (2 ^ 32 - 5, .pay firstToken holder 6 3000), (2 ^ 32 - 5, .sync), (2 ^ 32 + 5, .sync)]

theorem pricedCalls_integrate :
    ∃ q, (run plainEnv freshWorld pricedCalls).pair 6 = some q ∧
      q.price0CumulativeLast = ((2 ^ 32 - 6) * 2 ^ 112 + 10 * 2 ^ 111) % Uint.size ∧
      q.price1CumulativeLast = ((2 ^ 32 - 6) * 2 ^ 112 + 10 * 2 ^ 113) % Uint.size := by
  obtain ⟨q, hq, h₀, h₁, -⟩ := @prices_integrate 6 plainEnv freshWorld 4 5 rfl pricedCalls
    (by decide +kernel)
  refine ⟨q, hq, h₀.trans ?_, h₁.trans ?_⟩
  · decide +kernel
  · decide +kernel

end Call

end ArkSwap
