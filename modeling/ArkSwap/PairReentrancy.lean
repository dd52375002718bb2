import ArkSwap.PairCallbacks

/-! Swaps whose recipient runs arbitrary code before they are settled: calls to
the pair, to its shares and to tokens, nested, and with failures caught or not. -/

namespace ArkSwap

open Checked ArkSwapPair

/-- What the code of a recipient may do. A failure inside `caught` undoes what
was done there, and the code goes on. -/
inductive Code (self : Address) where
  | call (c : Call self)
  | swap (sender : Address) (amount0Out amount1Out : Nat) (dst : Address)
      (data : Option (List (Code self)))
  | caught (body : List (Code self))

namespace Code

variable {self : Address}

mutual

def exec (env : Env) (w : World) : Code self → Except String World
  | call c => c.exec env w
  | swap sender amount0Out amount1Out dst data => do
      let (_, w) ← ArkSwapPair.swap env w self sender amount0Out amount1Out dst
        (execData env dst data)
      return w
  | caught body => .ok (attempt w (execAll env w body))

def execData (env : Env) (dst : Address) :
    Option (List (Code self)) → Option (World → Except String World)
  | none => none
  | some body => some fun w =>
      if dst = self then .error "function selector was not recognized" else execAll env w body

def execAll (env : Env) (w : World) : List (Code self) → Except String World
  | [] => .ok w
  | c :: cs => do
      let w ← exec env w c
      execAll env w cs

end

/-- The calls that take the pair's lock. -/
def Locking : Code self → Prop
  | call c => c.Locking
  | swap .. => True
  | caught _ => False

/-- The running code makes a call in some world. -/
inductive Makes (env : Env) : World → List (Code self) → World → Code self → Prop where
  | here {w : World} {c : Code self} {cs : List (Code self)} : Makes env w (c :: cs) w c
  | later {w w₁ w₂ : World} {c d : Code self} {cs : List (Code self)} (h : exec env w c = .ok w₁)
      (hcs : Makes env w₁ cs w₂ d) : Makes env w (c :: cs) w₂ d
  | inside {w w₁ : World} {d : Code self} {body cs : List (Code self)}
      (h : Makes env w body w₁ d) : Makes env w (caught body :: cs) w₁ d

variable {env : Env} {w w' w₁ : World} {p : ArkSwapPair}

theorem exec_error_of_locked (env : Env) (hp : w.pair self = some p) (hu : p.unlocked = 0)
    {c : Code self} (hc : c.Locking) : ∃ e, exec env w c = .error e := by
  cases c with
  | call c =>
    obtain ⟨e, he⟩ := Call.exec_error_of_locked env hp hu hc
    exact ⟨e, by rw [exec, he]⟩
  | swap sender o₀ o₁ dst data =>
    obtain ⟨e, he⟩ := lock_locked _ hp hu
    exact ⟨e, by rw [exec, ArkSwapPair.swap, he]; rfl⟩
  | caught body => exact hc.elim

mutual

theorem exec_beside : ∀ {w w' : World} {p : ArkSwapPair} {c : Code self}, w.pair self = some p →
    p.unlocked = 0 → exec env w c = .ok w' → Beside self w w'
  | w, w', p, call c, hp, hu, h => by
      rw [exec] at h
      exact Call.exec_beside (Call.not_locking_of_exec hp hu h) h
  | w, w', p, swap sender o₀ o₁ dst data, hp, hu, h => by
      obtain ⟨e, he⟩ := exec_error_of_locked env hp hu
        (c := swap sender o₀ o₁ dst data) True.intro
      rw [he] at h
      cases h
  | w, w', p, caught body, hp, hu, h => by
      rw [exec] at h
      obtain rfl := Except.ok.inj h
      rcases hb : execAll env w body with e | w₁
      · exact Beside.refl self w
      · exact execAll_beside hp hu hb

theorem execAll_beside : ∀ {w w' : World} {p : ArkSwapPair} {cs : List (Code self)},
    w.pair self = some p → p.unlocked = 0 → execAll env w cs = .ok w' → Beside self w w'
  | w, w', p, [], hp, hu, h => by
      obtain rfl := Except.ok.inj h
      exact Beside.refl self w
  | w, w', p, c :: cs, hp, hu, h => by
      rw [execAll, bind_eq_ok] at h
      obtain ⟨w₁, hc, hcs⟩ := h
      have hb := exec_beside hp hu hc
      exact hb.trans (execAll_beside (hb.pair.trans hp) hu hcs)

end

/-- Every world in which the code makes a call finds the pair as it was. -/
theorem Makes.pair_eq {cs : List (Code self)} {c : Code self} (h : Makes env w cs w₁ c)
    (hp : w.pair self = some p) (hu : p.unlocked = 0) : w₁.pair self = some p := by
  induction h with
  | here => exact hp
  | later h _ ih => exact ih ((exec_beside hp hu h).pair.trans hp)
  | inside _ ih => exact ih hp

theorem callback_beside (hp : w.pair self = some p) (hu : p.unlocked = 0) {dst : Address}
    {data : Option (List (Code self))} (h : callback (execData env dst data) w = .ok w') :
    Beside self w w' := by
  cases data with
  | none =>
    rw [execData] at h
    obtain rfl := Except.ok.inj h
    exact Beside.refl self w
  | some cs =>
    simp only [callback, execData] at h
    by_cases hd : dst = self
    · rw [if_pos hd] at h
      cases h
    · rw [if_neg hd] at h
      exact execAll_beside hp hu h

/-- What a swap with a callback does: the calls that the callback makes to enter
the pair fail and leave the world they are made in; a swap that succeeds is
settled at the balances it leaves, with the fee taken against the reserves it
found, and changes neither the supply nor `kLast`; one that fails changes
nothing. -/
theorem flash_swap (hd : Deployed env self p.token0 p.token1) (hp : w.pair self = some p)
    (sender dst : Address) (o₀ o₁ : Nat) (body : List (Code self)) :
    (∀ w₁ c, Makes env (paidOut (w.setPair self { p with unlocked := 0 }) self dst p o₀ o₁) body
        w₁ c → c.Locking → attempt w₁ (exec env w₁ c) = w₁) ∧
      (∀ w', exec env w (swap sender o₀ o₁ dst (some body)) = .ok w' →
        ∃ q, w'.pair self = some q ∧ q.reserve0 = w'.balanceOf p.token0 self ∧
          q.reserve1 = w'.balanceOf p.token1 self ∧ q.kLast = p.kLast ∧
          (w'.token self).totalSupply = (w.token self).totalSupply ∧
          1000000 * (p.reserve0 * p.reserve1) ≤
            (1000 * w'.balanceOf p.token0 self -
              3 * amountIn (w'.balanceOf p.token0 self) p.reserve0 o₀) *
            (1000 * w'.balanceOf p.token1 self -
              3 * amountIn (w'.balanceOf p.token1 self) p.reserve1 o₁)) ∧
      ∀ e, exec env w (swap sender o₀ o₁ dst (some body)) = .error e →
        attempt w (exec env w (swap sender o₀ o₁ dst (some body))) = w := by
  have hlocked : (paidOut (w.setPair self { p with unlocked := 0 }) self dst p o₀ o₁).pair self =
      some { p with unlocked := 0 } := by simp [paidOut]
  refine ⟨fun w₁ c hmakes hc => ?_, fun w' h => ?_, fun e h => by rw [h, attempt_error]⟩
  · obtain ⟨e, he⟩ := exec_error_of_locked env (hmakes.pair_eq hlocked rfl) rfl hc
    rw [he, attempt_error]
  · simp only [exec, bind_eq_ok, pure_eq_ok, Except.ok.injEq] at h
    obtain ⟨⟨⟨⟩, w''⟩, hswap, rfl⟩ := h
    obtain ⟨-, -, -, -, -, -, -, w₁, p₁, q, hcall, hp₁, hK, hsettled, hpair, htoken, -⟩ :=
      swap_ok hd.standard0 hd.standard1 hp hswap
    have hb := callback_beside hlocked rfl hcall
    obtain rfl : p₁ = { p with unlocked := 0 } :=
      Option.some.inj (hp₁.symm.trans (hb.pair.trans hlocked))
    have hbal : ∀ t a, w''.balanceOf t a = w₁.balanceOf t a := fun t a => by
      rw [World.balanceOf, World.balanceOf, htoken]
    refine ⟨q, ?_, ?_, ?_, ?_, ?_, ?_⟩
    · rw [hpair, Function.update_self]
    · rw [hbal]
      exact hsettled.reserve0
    · rw [hbal]
      exact hsettled.reserve1
    · exact hsettled.kLast
    · rw [htoken, hb.supply]
      have hsupply := World.moved_token_of_ne (w := (w.setPair self { p with unlocked := 0 }).moved
        p.token0 self dst o₀) self dst o₁ hd.token1_ne.symm
      have hsupply₀ := World.moved_token_of_ne (w := w.setPair self { p with unlocked := 0 }) self dst
        o₀ hd.token0_ne.symm
      rw [paidOut, hsupply, hsupply₀, World.setPair_token]
    · rw [hbal, hbal]
      rw [ConstantProduct.Accepts] at hK
      calc 1000000 * (p.reserve0 * p.reserve1) = p.reserve0 * p.reserve1 * 1000 ^ 2 := by ring
        _ ≤ _ := hK
        _ = _ := by rw [Nat.mul_comm _ 1000, Nat.mul_comm _ 3, Nat.mul_comm _ 1000, Nat.mul_comm _ 3]

theorem four_ne_pair : (4 : Address) ≠ 6 := by decide

theorem seven_ne_pair : (7 : Address) ≠ 6 := by decide

/-- The borrower tries to enter the pair twice and repays in the borrowed token. -/
def repaid : List (Code 6) :=
  [.caught [.call .sync], .caught [.swap 7 1 1 8 (some [.call (.mint 7 7)])],
    .call (.pay ⟨4, four_ne_pair⟩ ⟨7, seven_ne_pair⟩ 6 1010)]

theorem repaid_flash_swap :
    ∃ w', exec plainEnv (Call.run plainEnv freshWorld firstDeposit) (swap 7 1000 0 8 (some repaid)) =
      .ok w' ∧ ∃ q, w'.pair 6 = some q ∧ q.reserve0 = w'.balanceOf 4 6 ∧
        (w'.token 6).totalSupply =
          ((Call.run plainEnv freshWorld firstDeposit).token 6).totalSupply := by
  have hok : (exec plainEnv (Call.run plainEnv freshWorld firstDeposit)
      (swap 7 1000 0 8 (some repaid))).isOk = true := by decide +kernel
  have hp : (Call.run plainEnv freshWorld firstDeposit).pair 6 =
      some { ArkSwapPair.initial 4 5 with
        reserve0 := 4000, reserve1 := 4000, blockTimestampLast := 1 } := by
    decide +kernel
  obtain ⟨w', hw'⟩ := exists_ok hok
  obtain ⟨-, hsafe, -⟩ := flash_swap plainEnv_deployed hp 7 8 1000 0 repaid
  obtain ⟨q, hq, hr, -, -, hsupply, -⟩ := hsafe w' hw'
  exact ⟨w', hw', q, hq, hr, hsupply⟩

end Code

end ArkSwap
