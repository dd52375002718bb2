import ArkSwap.PairAddress
import ArkSwap.RouterDeposit
import ArkSwap.RouterSupporting
import ArkSwap.Tokens

/-! What a form reads of one pool, against the pair on the chain: when the read gives
a pool, and the deposits that the router takes as they are offered. -/

namespace ArkSwap

open Checked ArkSwapLibrary Web

namespace UsePoolState

structure Results where
  getPair : Option Text
  getReserves : Option (Int × Int)
  token0 : Option Text
  token1 : Option Text
  totalSupply : Option Int

structure PoolState where
  pair : Text
  token0 : Text
  token1 : Text
  reserve0 : Int
  reserve1 : Int
  totalSupply : Int
  deriving DecidableEq

def zeroAddress : Text := hexText 40 0

/-- The pool at the derived address, if the factory has registered that address and
every call has a result. -/
def poolAt (derived : Text) (results : Results) : Option PoolState :=
  match results.getPair, results.getReserves, results.token0, results.token1,
    results.totalSupply with
  | some registered, some (reserve0, reserve1), some token0, some token1, some totalSupply =>
      if registered = zeroAddress then none
      else if Sdk.toLowerCase registered ≠ Sdk.toLowerCase derived then none
      else some
        { pair := derived
          token0 := token0
          token1 := token1
          reserve0 := reserve0
          reserve1 := reserve1
          totalSupply := totalSupply }
  | _, _, _, _, _ => none

section Reading

variable {env : Env}

/-- The pool the form knows of; there is none before the read is answered. -/
def usePoolState (viem : Viem env) (wkashAddress factory : Option Text) (tokenA tokenB : Token)
    (data : Option Results) : Except String (Option PoolState) :=
  match routedAddress wkashAddress tokenA, routedAddress wkashAddress tokenB, factory with
  | some a, some b, some factory =>
      if Sdk.toLowerCase a = Sdk.toLowerCase b then return none
      else do
        let derived ← Sdk.computePairAddress viem factory a b
        return data.bind (poolAt derived)
  | _, _, _ => return none

def orientReserves (pool : PoolState) (tokenIn : Text) : Int × Int :=
  if Sdk.toLowerCase tokenIn = Sdk.toLowerCase pool.token0 then (pool.reserve0, pool.reserve1)
  else (pool.reserve1, pool.reserve0)

end Reading

structure Trading (env : Env) (w : World) (a b : Address) (p : ArkSwapPair) : Prop where
  distinct : a ≠ b
  nonzero : min a b ≠ 0
  registered : w.factory.getPair a b ≠ 0
  symmetric : w.factory.getPair b a = w.factory.getPair a b
  deployed : w.pair (pool env a b) = some p
  token0 : p.token0 = min a b
  positive : 0 < p.reserve0 ∧ 0 < p.reserve1

/-- The results that are there are what the chain answers. -/
structure Reads (env : Env) (w : World) (a b : Address) (p : ArkSwapPair) (results : Results) :
    Prop where
  getPair : ∀ x, results.getPair = some x → Spells x (w.factory.getPair a b)
  getReserves : ∀ r, results.getReserves = some r → r = ((p.reserve0 : Int), (p.reserve1 : Int))
  token0 : ∀ x, results.token0 = some x → Spells x p.token0
  token1 : ∀ x, results.token1 = some x → Spells x p.token1
  totalSupply : ∀ n, results.totalSupply = some n → n = (w.token (pool env a b)).totalSupply

def Names (env : Env) (token : Token) (a : Address) : Prop :=
  if token.isNative then a = env.WETH else ∃ x, token.address = some x ∧ Spells x a

def Answered (results : Results) : Prop :=
  results.getPair.isSome ∧ results.getReserves.isSome ∧ results.token0.isSome ∧
    results.token1.isSome ∧ results.totalSupply.isSome

/-- The read could be made, every call of it is answered, and the factory has
registered the derived address. -/
def Loaded (env : Env) (w : World) (wkashAddress factory : Option Text) (tokenA tokenB : Token)
    (a b : Address) (data : Option Results) : Prop :=
  (routedAddress wkashAddress tokenA).isSome ∧ (routedAddress wkashAddress tokenB).isSome ∧
    factory.isSome ∧ (∃ results, data = some results ∧ Answered results) ∧
    w.factory.getPair a b = pool env a b

section Chain

variable {env : Env} {w : World} {a b : Address} {p : ArkSwapPair} {x m m' rA rB : Nat}

theorem Trading.comm (h : Trading env w a b p) : Trading env w b a p where
  distinct := h.distinct.symm
  nonzero := min_comm a b ▸ h.nonzero
  registered := h.symmetric ▸ h.registered
  symmetric := h.symmetric.symm
  deployed := by
    rw [pool, min_comm, max_comm]
    exact h.deployed
  token0 := min_comm a b ▸ h.token0
  positive := h.positive

theorem Trading.reserve_pos (h : Trading env w a b p) (t : Address) : 0 < reserveOf p t := by
  rw [reserveOf]
  split
  · exact h.positive.1
  · exact h.positive.2

theorem Trading.getReserves (h : Trading env w a b p) :
    getReserves env w a b = .ok (reserveOf p a, reserveOf p b) :=
  getReserves_pool h.distinct h.nonzero h.deployed h.token0

theorem Trading.withPair (h : Trading env w a b p) : ArkSwapRouter02.withPair env w a b = .ok w :=
  if_neg h.registered

theorem Trading.reserveOf_eq {w' : World} {p' : ArkSwapPair} (h : Trading env w a b p)
    (h' : Trading env w' a b p') (h₀ : p'.reserve0 = p.reserve0) (h₁ : p'.reserve1 = p.reserve1)
    (t : Address) : reserveOf p' t = reserveOf p t := by
  rw [reserveOf, reserveOf, h.token0, h'.token0, h₀, h₁]

/-- The first quote decides when it matches the second offer. -/
theorem Trading.takes_matched (h : Trading env w a b p) (hA : reserveOf p a = rA)
    (hB : reserveOf p b = rB) (hx : 0 < x) (hm : m' ≤ x * rB / rA) :
    ArkSwapRouter02.addLiquidityAmounts env w a b x (x * rB / rA) m m' =
        .ok ((x, x * rB / rA), w) ↔ x * rB < Uint.size := by
  have hposA : 0 < rA := hA ▸ h.reserve_pos a
  have hposB : 0 < rB := hB ▸ h.reserve_pos b
  have h0 : ¬(rA = 0 ∧ rB = 0) := fun hz => hposA.ne' hz.1
  unfold ArkSwapRouter02.addLiquidityAmounts
  simp only [h.withPair, ok_bind, h.getReserves, hA, hB, if_neg h0]
  constructor
  · intro hok
    obtain ⟨y, hy, -⟩ := bind_eq_ok.mp hok
    exact (quote_eq_ok.mp hy).2.2.2.1
  · intro hlt
    rw [quote_eq_ok.mpr ⟨hx, hposA, hposB, hlt, rfl⟩, ok_bind, if_pos (Nat.le_refl _), require_of hm]
    rfl

/-- Offered the other way around, the first quote has to come back to what it was
computed from, so nothing may have been rounded off. -/
theorem Trading.takes_reversed (h : Trading env w a b p) (hA : reserveOf p a = rA)
    (hB : reserveOf p b = rB) (hx : 0 < x) (hm : m' ≤ x) :
    ArkSwapRouter02.addLiquidityAmounts env w b a (x * rB / rA) x m m' =
        .ok ((x * rB / rA, x), w) ↔ x * rB < Uint.size ∧ rA ∣ x * rB := by
  have hposA : 0 < rA := hA ▸ h.reserve_pos a
  have hposB : 0 < rB := hB ▸ h.reserve_pos b
  have h0 : ¬(rB = 0 ∧ rA = 0) := fun hz => hposB.ne' hz.1
  have hle : x * rB / rA * rA ≤ x * rB := Nat.div_mul_le_self _ _
  unfold ArkSwapRouter02.addLiquidityAmounts
  simp only [h.comm.withPair, ok_bind, h.comm.getReserves, hA, hB, if_neg h0]
  constructor
  · intro hok
    obtain ⟨back, hquote, hok⟩ := bind_eq_ok.mp hok
    obtain ⟨-, -, -, hlt, rfl⟩ := quote_eq_ok.mp hquote
    have hback : x * rB / rA * rA / rB ≤ x := Nat.div_le_of_le_mul (by rwa [Nat.mul_comm rB])
    rw [if_pos hback, bind_eq_ok] at hok
    obtain ⟨-, -, hok⟩ := hok
    simp only [pure_eq_ok, Except.ok.injEq, Prod.mk.injEq, true_and, and_true] at hok
    have hge := Nat.div_mul_le_self (x * rB / rA * rA) rB
    rw [hok] at hge
    have heq := Nat.le_antisymm hle hge
    exact ⟨heq ▸ hlt, Dvd.intro_left _ heq⟩
  · rintro ⟨hlt, hdvd⟩
    have hexact := Nat.div_mul_cancel hdvd
    have hpos : 0 < x * rB / rA :=
      Nat.div_pos (Nat.le_of_dvd (Nat.mul_pos hx hposB) hdvd) hposA
    have hquote : quote (x * rB / rA) rB rA = .ok x :=
      quote_eq_ok.mpr ⟨hpos, hposB, hposA, by rwa [hexact], by rw [hexact, Nat.mul_div_cancel _ hposB]⟩
    rw [hquote, ok_bind, if_pos (Nat.le_refl x), require_of hm]
    rfl

end Chain

section Reading

variable {env : Env} {viem : Viem env} {wkashAddress factory : Option Text} {tokenA tokenB : Token}
  {w : World} {a b : Address} {p : ArkSwapPair} {data : Option Results} {pool : Option PoolState}
  {x : Text}

theorem Names.routed (h : Names env tokenA a)
    (hwkash : ∀ x, wkashAddress = some x → Spells x env.WETH)
    (hx : routedAddress wkashAddress tokenA = some x) : Spells x a := by
  rw [Names] at h
  rw [routedAddress] at hx
  split at h
  · rename_i hnative
    rw [if_pos hnative] at hx
    rw [h]
    exact hwkash x hx
  · rename_i hplain
    rw [if_neg hplain] at hx
    obtain ⟨y, hy, hspells⟩ := h
    obtain rfl := Option.some.inj (hy.symm.trans hx)
    exact hspells

theorem poolAt_answered {derived : Text} {results : Results} {state : PoolState}
    (h : poolAt derived results = some state) :
    Answered results ∧ ∃ registered, results.getPair = some registered ∧
      Sdk.toLowerCase registered = Sdk.toLowerCase derived := by
  obtain ⟨getPair, getReserves, token0, token1, totalSupply⟩ := results
  unfold poolAt at h
  split at h
  · rename_i registered _ _ _ _ _ hget hres h₀ h₁ hsupply
    obtain ⟨-, h⟩ := Option.ite_none_left_eq_some.mp h
    obtain ⟨hderived, -⟩ := Option.ite_none_left_eq_some.mp h
    refine ⟨⟨?_, ?_, ?_, ?_, ?_⟩, registered, hget, not_not.mp hderived⟩
    · rw [hget]; rfl
    · rw [hres]; rfl
    · rw [h₀]; rfl
    · rw [h₁]; rfl
    · rw [hsupply]; rfl
  · cases h

theorem zeroAddress_ne {registered : Text} {q : Address} (h : Spells registered q) (hq : q ≠ 0) :
    registered ≠ zeroAddress := by
  rintro rfl
  have hzero : Spells zeroAddress 0 := spells_hexText 0
  exact hq ((h.eq_iff hzero).mp rfl)

theorem poolAt_loaded {derived : Text} {results : Results} (hpool : Trading env w a b p)
    (hreads : Reads env w a b p results) (hanswered : Answered results)
    (hderived : Spells derived (w.factory.getPair a b)) (hx : Spells x a) :
    ∃ state, poolAt derived results = some state ∧
      orientReserves state x = ((reserveOf p a : Int), (reserveOf p b : Int)) := by
  obtain ⟨getPair, getReserves, token0, token1, totalSupply⟩ := results
  obtain ⟨hget, hres, h₀, h₁, hsupply⟩ := hanswered
  obtain ⟨registered, rfl⟩ := Option.isSome_iff_exists.mp hget
  obtain ⟨reserves, rfl⟩ := Option.isSome_iff_exists.mp hres
  obtain ⟨t₀, rfl⟩ := Option.isSome_iff_exists.mp h₀
  obtain ⟨t₁, rfl⟩ := Option.isSome_iff_exists.mp h₁
  obtain ⟨supply, rfl⟩ := Option.isSome_iff_exists.mp hsupply
  obtain rfl := hreads.getReserves reserves rfl
  have hregistered := hreads.getPair registered rfl
  have htoken0 := hreads.token0 t₀ rfl
  have hne := zeroAddress_ne hregistered hpool.registered
  have heq : ¬Sdk.toLowerCase registered ≠ Sdk.toLowerCase derived :=
    not_not.mpr ((hregistered.eq_iff hderived).mpr rfl)
  refine ⟨⟨derived, t₀, t₁, p.reserve0, p.reserve1, supply⟩, ?_, ?_⟩
  · unfold poolAt
    dsimp only
    rw [if_neg hne, if_neg heq]
  · have hzero : Sdk.toLowerCase x = Sdk.toLowerCase t₀ ↔ a = p.token0 := hx.eq_iff htoken0
    have hother : b = p.token0 ↔ a ≠ p.token0 := by
      have hdistinct := hpool.distinct
      rw [hpool.token0]
      rcases min_choice a b with hmin | hmin <;> rw [hmin] <;> simp [hdistinct, hdistinct.symm]
    simp only [orientReserves, hzero, reserveOf, hother]
    by_cases ha : a = p.token0 <;> simp [ha]

theorem usePoolState_cases (hA : Names env tokenA a) (hB : Names env tokenB b)
    (hwkash : ∀ x, wkashAddress = some x → Spells x env.WETH)
    (hfactory : ∀ x, factory = some x → Spells x env.factory) (hpool : Trading env w a b p)
    (hreads : ∀ results, data = some results → Reads env w a b p results)
    (h : usePoolState viem wkashAddress factory tokenA tokenB data = .ok pool) :
    (Loaded env w wkashAddress factory tokenA tokenB a b data ∧
      ∃ state routed, pool = some state ∧ routedAddress wkashAddress tokenA = some routed ∧
        orientReserves state routed = ((reserveOf p a : Int), (reserveOf p b : Int))) ∨
    (¬Loaded env w wkashAddress factory tokenA tokenB a b data ∧ pool = none) := by
  unfold usePoolState at h
  unfold Loaded
  rcases hx : routedAddress wkashAddress tokenA with _ | x
  · rw [hx] at h
    exact .inr ⟨fun hloaded => by simp at hloaded, (Except.ok.inj h).symm⟩
  rcases hy : routedAddress wkashAddress tokenB with _ | y
  · rw [hx, hy] at h
    exact .inr ⟨fun hloaded => by simp at hloaded, (Except.ok.inj h).symm⟩
  rcases factory with _ | f
  · rw [hx, hy] at h
    exact .inr ⟨fun hloaded => by simp at hloaded, (Except.ok.inj h).symm⟩
  have hxa := hA.routed hwkash hx
  have hyb := hB.routed hwkash hy
  have hdiff : ¬Sdk.toLowerCase x = Sdk.toLowerCase y := fun he =>
    hpool.distinct ((hxa.eq_iff hyb).mp he)
  obtain ⟨derived, hderived, hspells⟩ :=
    viem.getAddress_spells (spells_hexText (ArkSwapLibrary.pool env a b))
  simp only [hx, hy, if_neg hdiff, Sdk.computePairAddress_eq viem hpool.distinct (hfactory f rfl) hxa hyb,
    hderived, ok_bind, pure_eq_ok, Except.ok.injEq] at h
  rcases data with _ | results
  · exact .inr ⟨fun hloaded => by simp at hloaded, h.symm⟩
  have hread := hreads results rfl
  by_cases hloaded : Answered results ∧ w.factory.getPair a b = ArkSwapLibrary.pool env a b
  · obtain ⟨state, hstate, horiented⟩ := poolAt_loaded hpool hread hloaded.1 (hloaded.2 ▸ hspells) hxa
    exact .inl ⟨⟨rfl, rfl, rfl, ⟨results, rfl, hloaded.1⟩, hloaded.2⟩, state, x, h.symm.trans hstate,
      rfl, horiented⟩
  · refine .inr ⟨?_, ?_⟩
    · rintro ⟨-, -, -, ⟨_, hresults, hanswered⟩, hget⟩
      obtain rfl := Option.some.inj hresults
      exact hloaded ⟨hanswered, hget⟩
    · by_contra hsome
      obtain ⟨state, hstate⟩ := Option.ne_none_iff_exists'.mp hsome
      obtain ⟨hanswered, registered, hget, hlower⟩ := poolAt_answered (h.trans hstate)
      exact hloaded ⟨hanswered, ((hread.getPair registered hget).eq_iff hspells).mp hlower⟩

end Reading

end UsePoolState

end ArkSwap
