import ArkSwap.PairRun

/-! The factory's registry over any sequence of calls: the list of pairs and the
mapping both ways say the same, and neither ever loses an entry. -/

namespace ArkSwap

open Checked

/-- An account that makes calls: any but the factory contract. -/
abbrev External (env : Env) := {a : Address // a ≠ env.factory}

inductive FactoryCall (env : Env) where
  | createPair (sender : External env) (tokenA tokenB : Address)
  | setFeeTo (sender : External env) (feeTo : Address)
  | setFeeToSetter (sender : External env) (feeToSetter : Address)
  | initializePair (sender : External env) (pair token0 token1 : Address)

namespace FactoryCall

variable {env : Env} {w w' : World} {tokenA tokenB token0 token1 pair a b : Address}

def exec (w : World) : FactoryCall env → Except String World
  | createPair _ tokenA tokenB => do
      let (_, w) ← ArkSwapFactory.createPair env w tokenA tokenB
      return w
  | setFeeTo sender feeTo => do
      let f ← w.factory.setFeeTo sender feeTo
      return { w with factory := f }
  | setFeeToSetter sender feeToSetter => do
      let f ← w.factory.setFeeToSetter sender feeToSetter
      return { w with factory := f }
  | initializePair sender pair token0 token1 =>
      ArkSwapPair.initializePair env w pair sender token0 token1

/-- A failed call changes nothing. -/
def step (w : World) (c : FactoryCall env) : World := attempt w (c.exec w)

abbrev run (w : World) (calls : List (FactoryCall env)) : World := Run.run step w calls

/-- The pair at an address was created for two tokens, in either order. -/
def CreatedFor (w : World) (p a b : Address) : Prop :=
  ∃ q, w.pair p = some q ∧ (q.token0 = a ∧ q.token1 = b ∨ q.token0 = b ∧ q.token1 = a)

structure Registry (w : World) : Prop where
  symmetric : ∀ a b, w.factory.getPair a b = w.factory.getPair b a
  listed : ∀ a b, w.factory.getPair a b ≠ 0 ↔ ∃ p ∈ w.factory.allPairs, CreatedFor w p a b
  nodup : w.factory.allPairs.Nodup
  entry : ∀ p ∈ w.factory.allPairs, ∃ q, w.pair p = some q ∧ q.token0 < q.token1 ∧ q.token0 ≠ 0 ∧
    w.factory.getPair q.token0 q.token1 = p

/-- Nothing that was set has changed. -/
structure Extends (w w' : World) : Prop where
  listed : w.factory.allPairs <+: w'.factory.allPairs
  mapped : ∀ a b, w.factory.getPair a b ≠ 0 → w'.factory.getPair a b = w.factory.getPair a b
  tokens : ∀ p q, w.pair p = some q → w'.pair p = some q

theorem Extends.refl (w : World) : Extends w w :=
  ⟨List.prefix_rfl, fun _ _ _ => rfl, fun _ _ h => h⟩

theorem Extends.trans {w'' : World} (h : Extends w w') (h' : Extends w' w'') : Extends w w'' where
  listed := h.listed.trans h'.listed
  mapped a b hab := by
    have hw := h.mapped a b hab
    rw [← hw] at hab
    exact (h'.mapped a b hab).trans hw
  tokens p q hp := h'.tokens p q (h.tokens p q hp)

theorem createPair_ok (h : ArkSwapFactory.createPair env w tokenA tokenB = .ok (pair, w')) :
    ∃ token0 token1, token0 < token1 ∧ token0 ≠ 0 ∧ pair ≠ 0 ∧
      w.factory.getPair token0 token1 = 0 ∧ w.pair pair = none ∧
      w'.pair = Function.update w.pair pair (some (.initial token0 token1)) ∧
      w'.factory.allPairs = w.factory.allPairs ++ [pair] ∧
      ∀ a b, w'.factory.getPair a b =
        if a = token0 ∧ b = token1 ∨ a = token1 ∧ b = token0 then pair
        else w.factory.getPair a b := by
  rw [ArkSwapFactory.createPair, sorted_eq] at h
  simp only [bind_eq_ok, require_eq_ok, pure_eq_ok, Except.ok.injEq, Prod.mk.injEq] at h
  obtain ⟨-, hne, -, hzero, -, hget, -, ⟨hnone, hpair, -⟩, rfl, rfl⟩ := h
  have hlt : min tokenA tokenB < max tokenA tokenB := min_lt_max.mpr hne
  refine ⟨_, _, hlt, hzero, hpair, hget, hnone, ?_, rfl, fun a b => ?_⟩
  · simp [World.emit, World.deploy, World.setPair, World.setToken]
  · generalize min tokenA tokenB = token0 at *
    generalize max tokenA tokenB = token1 at *
    have hne' : token1 ≠ token0 := hlt.ne'
    simp only [World.emit, Function.update_apply]
    by_cases ha : a = token1
    · subst ha
      by_cases hb : b = token0 <;> simp [hb, hne', hne'.symm]
    · by_cases ha₀ : a = token0
      · subst ha₀
        by_cases hb : b = token1 <;> simp [hb, ha]
      · simp [ha, ha₀]

theorem Registry.createPair (hr : Registry w)
    (h : ArkSwapFactory.createPair env w tokenA tokenB = .ok (pair, w')) :
    Registry w' ∧ Extends w w' := by
  obtain ⟨token0, token1, hlt, hzero, hpair, hget, hnone, hw, hall, hmap⟩ := createPair_ok h
  have hold : ∀ p q, w.pair p = some q → p ≠ pair := by
    rintro p q hp rfl
    rw [hnone] at hp
    cases hp
  have htokens : ∀ p q, w.pair p = some q → w'.pair p = some q := by
    intro p q hp
    rw [hw, Function.update_of_ne (hold p q hp), hp]
  have hnew : w'.pair pair = some (.initial token0 token1) := by rw [hw, Function.update_self]
  have hfree : w.factory.getPair token1 token0 = 0 := by rw [hr.symmetric, hget]
  have hmapped : ∀ a b, w.factory.getPair a b ≠ 0 → w'.factory.getPair a b = w.factory.getPair a b := by
    intro a b hab
    rw [hmap, if_neg]
    rintro (⟨rfl, rfl⟩ | ⟨rfl, rfl⟩)
    · exact hab hget
    · exact hab hfree
  refine ⟨⟨fun a b => ?_, fun a b => ?_, ?_, fun p hp => ?_⟩, ?_, hmapped, htokens⟩
  · rw [hmap, hmap, hr.symmetric a b]
    simp only [or_comm, and_comm]
  · rw [hall]
    constructor
    · intro hab
      rw [hmap] at hab
      split at hab
      · rename_i hcase
        refine ⟨pair, List.mem_append_right _ List.mem_cons_self, _, hnew, ?_⟩
        rcases hcase with ⟨rfl, rfl⟩ | ⟨rfl, rfl⟩
        · exact Or.inl ⟨rfl, rfl⟩
        · exact Or.inr ⟨rfl, rfl⟩
      · obtain ⟨p, hp, q, hq, hfor⟩ := (hr.listed a b).mp hab
        exact ⟨p, List.mem_append_left _ hp, q, htokens p q hq, hfor⟩
    · rintro ⟨p, hp, q, hq, hfor⟩
      rcases List.mem_append.mp hp with hp | hp
      · obtain ⟨q', hq', -⟩ := hr.entry p hp
        obtain rfl := Option.some.inj ((htokens p q' hq').symm.trans hq)
        have hab := (hr.listed a b).mpr ⟨p, hp, q', hq', hfor⟩
        rw [hmapped a b hab]
        exact hab
      · obtain rfl := List.mem_singleton.mp hp
        obtain rfl := Option.some.inj (hnew.symm.trans hq)
        rw [hmap, if_pos]
        · exact hpair
        · rcases hfor with ⟨rfl, rfl⟩ | ⟨rfl, rfl⟩
          · exact Or.inl ⟨rfl, rfl⟩
          · exact Or.inr ⟨rfl, rfl⟩
  · rw [hall, List.nodup_append]
    refine ⟨hr.nodup, List.nodup_singleton _, fun p hp p' hp' => ?_⟩
    obtain ⟨q, hq, -⟩ := hr.entry p hp
    rw [List.mem_singleton.mp hp']
    exact hold p q hq
  · rw [hall] at hp
    rcases List.mem_append.mp hp with hp | hp
    · obtain ⟨q, hq, hsorted, hq₀, hgetq⟩ := hr.entry p hp
      refine ⟨q, htokens p q hq, hsorted, hq₀, ?_⟩
      have hset : w.factory.getPair q.token0 q.token1 ≠ 0 :=
        (hr.listed _ _).mpr ⟨p, hp, q, hq, Or.inl ⟨rfl, rfl⟩⟩
      rw [hmapped _ _ hset, hgetq]
    · obtain rfl := List.mem_singleton.mp hp
      exact ⟨_, hnew, hlt, hzero, (hmap _ _).trans (if_pos (Or.inl ⟨rfl, rfl⟩))⟩
  · rw [hall]
    exact List.prefix_append _ _

theorem Registry.settings (hr : Registry w) {f : ArkSwapFactory}
    (hget : f.getPair = w.factory.getPair) (hall : f.allPairs = w.factory.allPairs) :
    Registry { w with factory := f } ∧ Extends w { w with factory := f } := by
  refine ⟨⟨?_, ?_, ?_, ?_⟩, ?_, ?_, fun _ _ h => h⟩
  · rw [hget]
    exact hr.symmetric
  · rw [hget, hall]
    exact hr.listed
  · rw [hall]
    exact hr.nodup
  · rw [hget, hall]
    exact hr.entry
  · rw [hall]
  · rw [hget]
    exact fun _ _ _ => rfl

theorem Registry.step (hr : Registry w) (c : FactoryCall env) :
    Registry (step w c) ∧ Extends w (step w c) := by
  rw [FactoryCall.step]
  rcases h : c.exec w with e | w'
  · exact ⟨hr, Extends.refl w⟩
  · rw [attempt_ok]
    cases c with
    | createPair sender tokenA tokenB =>
      simp only [exec, bind_eq_ok, pure_eq_ok, Except.ok.injEq] at h
      obtain ⟨⟨pair, w₁⟩, hcreate, rfl⟩ := h
      exact hr.createPair hcreate
    | setFeeTo sender feeTo =>
      simp only [exec, ArkSwapFactory.setFeeTo, bind_eq_ok, require_eq_ok, pure_eq_ok,
        Except.ok.injEq] at h
      obtain ⟨f, ⟨-, -, rfl⟩, rfl⟩ := h
      exact hr.settings rfl rfl
    | setFeeToSetter sender feeToSetter =>
      simp only [exec, ArkSwapFactory.setFeeToSetter, bind_eq_ok, require_eq_ok, pure_eq_ok,
        Except.ok.injEq] at h
      obtain ⟨f, ⟨-, -, rfl⟩, rfl⟩ := h
      exact hr.settings rfl rfl
    | initializePair sender pair token0 token1 =>
      have herror : ∃ e, ArkSwapPair.initializePair env w pair sender token0 token1 = .error e :=
        ArkSwapPair.initializePair_error sender.2 token0 token1
      obtain ⟨e, he⟩ := herror
      rw [exec, he] at h
      cases h

theorem Registry.run (hr : Registry w) (calls : List (FactoryCall env)) :
    Registry (run w calls) ∧ Extends w (run w calls) :=
  Run.run_inv (fun w' => Registry w' ∧ Extends w w')
    (fun _ c h => ⟨(h.1.step c).1, h.2.trans (h.1.step c).2⟩) ⟨hr, Extends.refl w⟩ calls

/-- A factory that has just been deployed. -/
def NewFactory (w : World) : Prop :=
  (∀ a b, w.factory.getPair a b = 0) ∧ w.factory.allPairs = []

theorem NewFactory.registry (h : NewFactory w) : Registry w := by
  obtain ⟨hget, hall⟩ := h
  refine ⟨fun a b => by rw [hget, hget], fun a b => ?_, ?_, fun p hp => ?_⟩
  · rw [hget, hall]
    simp
  · rw [hall]
    exact List.nodup_nil
  · rw [hall] at hp
    cases hp

/-- From the deployment on, after any calls the registry is in order, later calls
keep what it says, and a call that reverts changes nothing. -/
theorem run_registry (h : NewFactory w) (before after : List (FactoryCall env)) :
    Registry (run w before) ∧ Extends (run w before) (run w (before ++ after)) ∧
      ∀ c : FactoryCall env, ∀ e, c.exec (run w before) = .error e →
        step (run w before) c = run w before := by
  have hr := (h.registry.run before).1
  refine ⟨hr, ?_, fun c e he => by rw [step, he, attempt_error]⟩
  have hrest := (hr.run after).2
  rwa [FactoryCall.run, FactoryCall.run, ← Run.run_append] at hrest

/-- The second call names the same tokens in the other order. -/
def createdTwice : List (FactoryCall hashEnv) :=
  [.createPair ⟨7, by decide⟩ 4 5, .createPair ⟨8, by decide⟩ 5 4]

theorem createdTwice_registry :
    Registry (run freshWorld createdTwice) ∧
      (run freshWorld createdTwice).factory.allPairs.length = 1 := by
  have h := run_registry (w := freshWorld) ⟨fun _ _ => rfl, rfl⟩ createdTwice []
  exact ⟨h.1, by decide +kernel⟩

end FactoryCall

end ArkSwap
