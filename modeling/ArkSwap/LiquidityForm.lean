import ArkSwap.AmountText
import ArkSwap.PoolReads
import ArkSwap.Slippage

/-! The form that adds liquidity: the call it submits, and when that call protects a
deposit into a pool that has reserves. -/

namespace ArkSwap

open Checked ArkSwapLibrary Web

namespace LiquidityCard

open UsePoolState

/-- What the form passes to the wallet. -/
inductive DepositCall where
  | addLiquidityETH (token : Text) (amountTokenDesired amountTokenMin amountETHMin : Int)
      (dst : Text) (deadline value : Int)
  | addLiquidity (tokenA tokenB : Text) (amountADesired amountBDesired amountAMin amountBMin : Int)
      (dst : Text) (deadline : Int)
  deriving DecidableEq

/-- The state of the form when its button is pressed. -/
structure Card where
  tokenA : Token
  tokenB : Token
  decimalsA : Nat
  decimalsB : Nat
  inputA : Text
  settings : Settings
  routerAddress : Option Text
  address : Option Text
  isConnected : Bool
  allowanceA : Int
  allowanceB : Int
  isPending : Bool
  isConfirming : Bool

section Form

variable (units : Units) (wkashAddress : Option Text) (pool : Option PoolState) (c : Card)

def Card.amountA : Option Int := parseAmount units c.inputA c.decimalsA

/-- The other side of the deposit, at the ratio of the pool. -/
def Card.amountB : Option Int :=
  match pool, c.amountA units, routedAddress wkashAddress c.tokenA with
  | some pool, some amountA, some routed =>
      if amountA ≤ 0 then none
      else
        let (reserveIn, reserveOut) := orientReserves pool routed
        if reserveIn ≤ 0 ∨ reserveOut ≤ 0 then none
        else (Sdk.quote amountA reserveIn reserveOut).toOption
  | _, _, _ => none

def Card.withSlippage (value : Int) : Int :=
  (value * (Sdk.BPS - c.settings.slippageBps)).tdiv Sdk.BPS

def needsApproval (routerAddress : Option Text) (token : Token) (allowance : Int)
    (amount : Option Int) : Bool :=
  !token.isNative && token.address.isSome && routerAddress.isSome &&
    match amount with
    | some amount => amount > 0 ∧ allowance < amount
    | none => false

def Card.needsApproval : Bool :=
  LiquidityCard.needsApproval c.routerAddress c.tokenA c.allowanceA (c.amountA units) ||
    LiquidityCard.needsApproval c.routerAddress c.tokenB c.allowanceB
      (c.amountB units wkashAddress pool)

def Card.disabled : Except String Bool :=
  if !c.isConnected || c.needsApproval units wkashAddress pool then return true
  else do
    if ← sameToken c.tokenA c.tokenB then return true
    else
      match c.amountA units with
      | none => return true
      | some amountA => return amountA ≤ 0 || c.isPending || c.isConfirming

/-- The text typed for the first token, read as an amount of the second. -/
def Card.typedB : Int := (parseAmount units c.inputA c.decimalsB).getD 0

def Card.bAmount : Int := (c.amountB units wkashAddress pool).getD (c.typedB units)

/-- A deposit counts as the first one while no pool is known. -/
def Card.minimum (value : Int) : Int := if pool.isNone then 0 else c.withSlippage value

def Card.call (amountA bAmount : Int) (address : Text) (deadline : Int) : Option DepositCall :=
  if c.tokenA.isNative then
    c.tokenB.address.map fun token => .addLiquidityETH token bAmount (c.minimum pool bAmount)
      (c.minimum pool amountA) address deadline amountA
  else if c.tokenB.isNative then
    c.tokenA.address.map fun token => .addLiquidityETH token amountA (c.minimum pool amountA)
      (c.minimum pool bAmount) address deadline bAmount
  else
    match c.tokenA.address, c.tokenB.address with
    | some tokenA, some tokenB => some (.addLiquidity tokenA tokenB amountA bAmount
        (c.minimum pool amountA) (c.minimum pool bAmount) address deadline)
    | _, _ => none

def Card.addLiquidity (deadlineFromNow : ℚ → Except String Int) :
    Except String (Option DepositCall) :=
  match c.routerAddress, c.address, c.amountA units with
  | some _, some address, some amountA =>
      if amountA ≤ 0 then return none
      else do
        let deadline ← deadlineFromNow c.settings.deadlineMinutes
        return c.call pool amountA (c.bAmount units wkashAddress pool) address deadline
  | _, _, _ => return none

def Card.press (deadlineFromNow : ℚ → Except String Int) : Except String (Option DepositCall) := do
  if ← c.disabled units wkashAddress pool then return none
  else c.addLiquidity units wkashAddress pool deadlineFromNow

end Form

namespace DepositCall

/-- The two amounts in the order in which the router takes them. -/
def offered : DepositCall → Int × Int
  | addLiquidityETH _ amountTokenDesired _ _ _ _ value => (amountTokenDesired, value)
  | addLiquidity _ _ amountADesired amountBDesired _ _ _ _ => (amountADesired, amountBDesired)

def minimums : DepositCall → Int × Int
  | addLiquidityETH _ _ amountTokenMin amountETHMin _ _ _ => (amountTokenMin, amountETHMin)
  | addLiquidity _ _ _ _ amountAMin amountBMin _ _ => (amountAMin, amountBMin)

/-- The amount of the second token of the form. -/
def offeredB (nativeA : Bool) : DepositCall → Int
  | addLiquidityETH _ amountTokenDesired _ _ _ _ value => if nativeA then amountTokenDesired else value
  | addLiquidity _ _ _ amountBDesired _ _ _ _ => amountBDesired

/-- What the router makes of the call before it moves any tokens. -/
def amounts (env : Env) (w : World) (a b : Address) (call : DepositCall) :
    Except String ((Nat × Nat) × World) :=
  ArkSwapRouter02.addLiquidityAmounts env w a b call.offered.1.toNat call.offered.2.toNat
    call.minimums.1.toNat call.minimums.2.toNat

/-- The tokens that the router takes the call to be about. -/
def tokens (env : Env) : DepositCall → Address → Address → Prop
  | addLiquidityETH token _ _ _ _ _ _, a, b => Spells token a ∧ b = env.WETH
  | addLiquidity tokenA tokenB _ _ _ _ _ _, a, b => Spells tokenA a ∧ Spells tokenB b

end DepositCall

/-- The router takes exactly what is offered. -/
def DepositCall.Accepted (env : Env) (w : World) (call : DepositCall) : Prop :=
  ∀ a b, call.tokens env a b →
    call.amounts env w a b = .ok ((call.offered.1.toNat, call.offered.2.toNat), w)

/-- Both minimums follow from the amounts offered, which are at the ratio of the pool
and are taken as long as its reserves stay. -/
structure Protected (env : Env) (c : Card) (a b : Address) (p : ArkSwapPair) (amountA : Int)
    (call : DepositCall) : Prop where
  minimums : call.minimums = (call.offered.1 * (10000 - c.settings.slippageBps) / 10000,
    call.offered.2 * (10000 - c.settings.slippageBps) / 10000)
  ratio : call.offeredB c.tokenA.isNative = amountA * reserveOf p b / reserveOf p a
  accepted : ∀ w p', Trading env w a b p' → p'.reserve0 = p.reserve0 → p'.reserve1 = p.reserve1 →
    call.Accepted env w

section Submission

variable {env : Env} {units : Units} {wkashAddress : Option Text} {pool : Option PoolState} {c : Card}
  {call : DepositCall} {deadlineFromNow : ℚ → Except String Int} {address routed : Text}
  {deadline amountA bAmount : Int} {a b : Address} {state : PoolState} {rA rB : Nat}

theorem press_eq_some (h : c.press units wkashAddress pool deadlineFromNow = .ok (some call)) :
    ∃ amountA address deadline, c.amountA units = some amountA ∧ 0 < amountA ∧
      c.call pool amountA (c.bAmount units wkashAddress pool) address deadline = some call := by
  rw [Card.press, bind_eq_ok] at h
  obtain ⟨disabled, -, h⟩ := h
  split at h
  · cases h
  · unfold Card.addLiquidity at h
    split at h
    · rename_i address amountA _ _ hamount
      split at h
      · cases h
      · rename_i hpos
        obtain ⟨deadline, -, h⟩ := bind_eq_ok.mp h
        exact ⟨amountA, address, deadline, hamount, not_le.mp hpos, Except.ok.inj h⟩
    · cases h

/-- The call, by which of the tokens is native. -/
theorem call_cases (hA : Names env c.tokenA a) (hB : Names env c.tokenB b) (hne : a ≠ b)
    (h : c.call pool amountA bAmount address deadline = some call) :
    (c.tokenA.isNative = true ∧ call.offered = (bAmount, amountA) ∧
      call.minimums = (c.minimum pool bAmount, c.minimum pool amountA) ∧
      call.offeredB c.tokenA.isNative = bAmount ∧ ∀ u v, call.tokens env u v ↔ u = b ∧ v = a) ∨
    (c.tokenA.isNative = false ∧ call.offered = (amountA, bAmount) ∧
      call.minimums = (c.minimum pool amountA, c.minimum pool bAmount) ∧
      call.offeredB c.tokenA.isNative = bAmount ∧ ∀ u v, call.tokens env u v ↔ u = a ∧ v = b) := by
  have hspelled : ∀ {t : Text} {u v : Address}, Spells t v → (Spells t u ↔ u = v) := fun hv =>
    ⟨fun hu => (hu.eq_iff hv).mp rfl, fun he => he ▸ hv⟩
  unfold Card.call at h
  unfold Names at hA hB
  cases hnativeA : c.tokenA.isNative <;> cases hnativeB : c.tokenB.isNative <;>
    simp only [hnativeA, hnativeB, Bool.false_eq_true, if_true, if_false] at h hA hB
  · obtain ⟨x, hx, hxa⟩ := hA
    obtain ⟨y, hy, hyb⟩ := hB
    rw [hx, hy] at h
    obtain rfl := Option.some.inj h
    exact .inr ⟨rfl, rfl, rfl, rfl, fun u v => and_congr (hspelled hxa) (hspelled hyb)⟩
  · obtain ⟨x, hx, hxa⟩ := hA
    rw [hx] at h
    obtain rfl := Option.some.inj h
    exact .inr ⟨rfl, rfl, rfl, rfl, fun u v => and_congr (hspelled hxa) (by rw [hB])⟩
  · obtain ⟨y, hy, hyb⟩ := hB
    rw [hy] at h
    obtain rfl := Option.some.inj h
    exact .inl ⟨rfl, rfl, rfl, rfl, fun u v => and_congr (hspelled hyb) (by rw [hA])⟩
  · exact absurd (hA.trans hB.symm) hne

theorem bAmount_known (hamount : c.amountA units = some amountA) (hpos : 0 < amountA)
    (hrouted : routedAddress wkashAddress c.tokenA = some routed)
    (horiented : orientReserves state routed = ((rA : Int), (rB : Int))) (hA : 0 < rA) (hB : 0 < rB) :
    c.bAmount units wkashAddress (some state) = amountA * rB / rA := by
  have hreserves : ¬((rA : Int) ≤ 0 ∨ (rB : Int) ≤ 0) := by omega
  have hboth : (rA : Int) > 0 ∧ (rB : Int) > 0 := by omega
  have hamountB : c.amountB units wkashAddress (some state) = some (amountA * rB / rA) := by
    unfold Card.amountB
    simp only [hamount, hrouted, if_neg (not_le.mpr hpos), horiented, if_neg hreserves]
    rw [Sdk.quote, require_of hpos, ok_bind, require_of hboth, ok_bind,
      Int.tdiv_eq_ediv_of_nonneg (mul_nonneg hpos.le (Int.natCast_nonneg rB))]
    rfl
  rw [Card.bAmount, hamountB]
  rfl

theorem bAmount_unknown : c.bAmount units wkashAddress none = c.typedB units := rfl

theorem typedB_nonneg (units : Units) (c : Card) : 0 ≤ c.typedB units := by
  rw [Card.typedB]
  rcases hparse : parseAmount units c.inputA c.decimalsB with _ | v
  · exact le_rfl
  · exact parseAmount_nonneg hparse

theorem minimum_known {value : Int} (hs : c.settings.Tolerant) (hvalue : 0 ≤ value) :
    c.minimum (some state) value = value * (10000 - c.settings.slippageBps) / 10000 :=
  minimumReceived_eq hvalue hs.2

theorem minimum_le (pool : Option PoolState) {value : Int} (hs : c.settings.Tolerant) (hvalue : 0 ≤ value) :
    c.minimum pool value ≤ value := by
  cases pool with
  | none => exact hvalue
  | some state => exact minimumReceived_le hvalue ⟨zero_le_one.trans hs.1, hs.2⟩

theorem minimum_nonneg (pool : Option PoolState) {value : Int} (hs : c.settings.Tolerant) (hvalue : 0 ≤ value) :
    0 ≤ c.minimum pool value := by
  cases pool with
  | none => exact le_rfl
  | some state =>
    rw [minimum_known hs hvalue]
    have hfactor := hs.2
    exact Int.ediv_nonneg (mul_nonneg hvalue (by omega)) (by decide)

/-- A bound is rounded down to nothing exactly for what cannot be divided. -/
theorem floor_eq_zero_iff {value : Int} (hs : c.settings.Tolerant) (hvalue : 0 ≤ value) :
    value * (10000 - c.settings.slippageBps) / 10000 = 0 ↔ value ≤ 1 := by
  rw [← minimumReceived_eq hvalue hs.2]
  rcases hvalue.eq_or_lt with rfl | hpos
  · exact ⟨fun _ => by decide, fun _ => by rw [minimumReceived_eq le_rfl hs.2, zero_mul]; rfl⟩
  · have hiff := minimumReceived_pos_iff hpos hs
    have hle := minimumReceived_eq hvalue hs.2
    have hfactor := hs.2
    have hnonneg : 0 ≤ value * (10000 - c.settings.slippageBps) / 10000 :=
      Int.ediv_nonneg (mul_nonneg hvalue (by omega)) (by decide)
    omega

/-- The call is accepted with the amounts that its offers come to. -/
theorem accepted_iff_amounts {w : World} {u v : Address} {x y m m' : Nat}
    (htokens : ∀ s t, call.tokens env s t ↔ s = u ∧ t = v) (hoffered : call.offered = ((x : Int), (y : Int)))
    (hminimums : call.minimums = ((m : Int), (m' : Int))) :
    call.Accepted env w ↔
      ArkSwapRouter02.addLiquidityAmounts env w u v x y m m' = .ok ((x, y), w) := by
  simp only [DepositCall.Accepted, htokens, DepositCall.amounts, hoffered, hminimums,
    Int.toNat_natCast]
  constructor
  · exact fun h => h u v ⟨rfl, rfl⟩
  · rintro h s t ⟨rfl, rfl⟩
    exact h

theorem accepted_iff {w : World} {p : ArkSwapPair} (hA : Names env c.tokenA a)
    (hB : Names env c.tokenB b) (hpool : Trading env w a b p) (hs : c.settings.Tolerant)
    (hpos : 0 < amountA) (hratio : bAmount = amountA * reserveOf p b / reserveOf p a)
    (hcall : c.call pool amountA bAmount address deadline = some call) :
    (∀ w' p', Trading env w' a b p' → p'.reserve0 = p.reserve0 → p'.reserve1 = p.reserve1 →
      call.Accepted env w') ↔
    amountA * reserveOf p b < Uint.size ∧
      (c.tokenA.isNative = true → (reserveOf p a : Int) ∣ amountA * reserveOf p b) := by
  obtain ⟨x, rfl⟩ := Int.eq_ofNat_of_zero_le hpos.le
  have hx : 0 < x := by exact_mod_cast hpos
  obtain rfl : bAmount = ((x * reserveOf p b / reserveOf p a : Nat) : Int) := by
    rw [hratio]
    push_cast
    rfl
  have hsize : (x : Int) * reserveOf p b < Uint.size ↔ x * reserveOf p b < Uint.size := by norm_cast
  have hdvd : (reserveOf p a : Int) ∣ x * reserveOf p b ↔ reserveOf p a ∣ x * reserveOf p b := by
    norm_cast
  rw [hsize, hdvd]
  obtain ⟨mA, hmA⟩ := Int.eq_ofNat_of_zero_le (minimum_nonneg pool hs (Int.natCast_nonneg x))
  obtain ⟨mB, hmB⟩ := Int.eq_ofNat_of_zero_le (minimum_nonneg pool hs
    (Int.natCast_nonneg (x * reserveOf p b / reserveOf p a)))
  have hleA : mA ≤ x := by
    have hle := minimum_le pool hs (Int.natCast_nonneg x)
    omega
  have hleB : mB ≤ x * reserveOf p b / reserveOf p a := by
    have hle := minimum_le pool hs (Int.natCast_nonneg (x * reserveOf p b / reserveOf p a))
    omega
  rcases call_cases hA hB hpool.distinct hcall with
    ⟨hnative, hoffered, hminimums, -, htokens⟩ | ⟨hnative, hoffered, hminimums, -, htokens⟩
  · rw [hmA, hmB] at hminimums
    rw [hnative]
    constructor
    · intro h
      have hown := (accepted_iff_amounts htokens hoffered hminimums).mp (h w p hpool rfl rfl)
      obtain ⟨hlt, hexact⟩ := (hpool.takes_reversed rfl rfl hx hleA).mp hown
      exact ⟨hlt, fun _ => hexact⟩
    · rintro ⟨hlt, hexact⟩ w' p' hpool' h₀ h₁
      have hsame := hpool.reserveOf_eq hpool' h₀ h₁
      exact (accepted_iff_amounts htokens hoffered hminimums).mpr
        ((hpool'.takes_reversed (hsame a) (hsame b) hx hleA).mpr ⟨hlt, hexact rfl⟩)
  · rw [hmA, hmB] at hminimums
    rw [hnative]
    constructor
    · intro h
      have hown := (accepted_iff_amounts htokens hoffered hminimums).mp (h w p hpool rfl rfl)
      exact ⟨(hpool.takes_matched rfl rfl hx hleB).mp hown, fun h => by cases h⟩
    · rintro ⟨hlt, -⟩ w' p' hpool' h₀ h₁
      have hsame := hpool.reserveOf_eq hpool' h₀ h₁
      exact (accepted_iff_amounts htokens hoffered hminimums).mpr
        ((hpool'.takes_matched (hsame a) (hsame b) hx hleB).mpr hlt)

theorem call_offeredB (hA : Names env c.tokenA a) (hB : Names env c.tokenB b) (hne : a ≠ b)
    (hcall : c.call pool amountA bAmount address deadline = some call) :
    call.offeredB c.tokenA.isNative = bAmount := by
  rcases call_cases hA hB hne hcall with ⟨-, -, -, h, -⟩ | ⟨-, -, -, h, -⟩
  · exact h
  · exact h

theorem call_minimums_iff (hA : Names env c.tokenA a) (hB : Names env c.tokenB b) (hne : a ≠ b)
    (hcall : c.call pool amountA bAmount address deadline = some call) (f : Int → Int) :
    call.minimums = (f call.offered.1, f call.offered.2) ↔
      c.minimum pool amountA = f amountA ∧ c.minimum pool bAmount = f bAmount := by
  rcases call_cases hA hB hne hcall with ⟨-, hoffered, hminimums, -⟩ | ⟨-, hoffered, hminimums, -⟩
  · rw [hoffered, hminimums, Prod.mk.injEq, and_comm]
  · rw [hoffered, hminimums, Prod.mk.injEq]

end Submission

/-- A deposit into a pool with reserves is protected when its read was complete and no
rounding comes between the form and the router; without the read it is only by chance,
on amounts that cannot be divided. -/
theorem deposit_protected_iff {env : Env} {viem : Viem env} {units : Units}
    {wkashAddress factory : Option Text} {c : Card} {data : Option Results} {pool : Option PoolState}
    {w : World} {a b : Address} {p : ArkSwapPair} {amountA : Int} {call : DepositCall}
    {deadlineFromNow : ℚ → Except String Int}
    (hwkash : ∀ x, wkashAddress = some x → Spells x env.WETH)
    (hfactory : ∀ x, factory = some x → Spells x env.factory)
    (hA : Names env c.tokenA a) (hB : Names env c.tokenB b) (hpool : Trading env w a b p)
    (hreads : ∀ results, data = some results → Reads env w a b p results)
    (hs : Reached c.settings)
    (hhook : usePoolState viem wkashAddress factory c.tokenA c.tokenB data = .ok pool)
    (hamount : c.amountA units = some amountA)
    (hpress : c.press units wkashAddress pool deadlineFromNow = .ok (some call)) :
    Protected env c a b p amountA call ↔
      amountA * reserveOf p b < Uint.size ∧
      (c.tokenA.isNative = true → (reserveOf p a : Int) ∣ amountA * reserveOf p b) ∧
      (Loaded env w wkashAddress factory c.tokenA c.tokenB a b data ∨
        amountA ≤ 1 ∧ c.typedB units ≤ 1 ∧
          c.typedB units = amountA * reserveOf p b / reserveOf p a) := by
  obtain ⟨_, address, deadline, hamount', hpos, hcall⟩ := press_eq_some hpress
  obtain rfl := Option.some.inj (hamount'.symm.trans hamount)
  have hminimums := call_minimums_iff hA hB hpool.distinct hcall
    (fun value => value * (10000 - c.settings.slippageBps) / 10000)
  have hoffered := call_offeredB hA hB hpool.distinct hcall
  rcases usePoolState_cases hA hB hwkash hfactory hpool hreads hhook with
    ⟨hloaded, state, routed, rfl, hrouted, horiented⟩ | ⟨hunread, rfl⟩
  · have hratio := bAmount_known hamount hpos hrouted horiented (hpool.reserve_pos a)
      (hpool.reserve_pos b)
    have haccepted := accepted_iff hA hB hpool hs.tolerant hpos hratio hcall
    have hnonneg : 0 ≤ c.bAmount units wkashAddress (some state) := by
      rw [hratio]
      exact Int.ediv_nonneg (mul_nonneg hpos.le (Int.natCast_nonneg _)) (Int.natCast_nonneg _)
    constructor
    · intro h
      obtain ⟨hlt, hdvd⟩ := haccepted.mp h.accepted
      exact ⟨hlt, hdvd, .inl hloaded⟩
    · rintro ⟨hlt, hdvd, -⟩
      exact
        { minimums := hminimums.mpr
            ⟨minimum_known hs.tolerant hpos.le, minimum_known hs.tolerant hnonneg⟩
          ratio := hoffered.trans hratio
          accepted := haccepted.mpr ⟨hlt, hdvd⟩ }
  · -- without a pool both minimums are zero and the other amount is the typed one
    rw [bAmount_unknown] at hcall hminimums hoffered
    have hzeroA := floor_eq_zero_iff hs.tolerant hpos.le
    have hzeroB := floor_eq_zero_iff hs.tolerant (typedB_nonneg units c)
    have hminimum : ∀ value, c.minimum none value = 0 := fun value => rfl
    rw [hminimum, hminimum] at hminimums
    constructor
    · intro h
      obtain ⟨hminA, hminB⟩ := hminimums.mp h.minimums
      have hratio := hoffered.symm.trans h.ratio
      obtain ⟨hlt, hdvd⟩ := (accepted_iff hA hB hpool hs.tolerant hpos hratio hcall).mp h.accepted
      exact ⟨hlt, hdvd, .inr ⟨hzeroA.mp hminA.symm, hzeroB.mp hminB.symm, hratio⟩⟩
    · rintro ⟨hlt, hdvd, hloaded | ⟨hleA, hleB, hratio⟩⟩
      · exact absurd hloaded hunread
      · exact
          { minimums := hminimums.mpr ⟨(hzeroA.mpr hleA).symm, (hzeroB.mpr hleB).symm⟩
            ratio := hoffered.trans hratio
            accepted := (accepted_iff hA hB hpool hs.tolerant hpos hratio hcall).mpr ⟨hlt, hdvd⟩ }

section Market

/-- Every hash is 6, and so is the address of every pair. -/
def sixEnv : Env := { plainEnv with keccak256 := fun _ => 6 }

def unevenPair : ArkSwapPair := { ArkSwapPair.initial 4 5 with reserve0 := 3000, reserve1 := 2000 }

def unevenWorld : World :=
  { freshWorld with
    pair := fun _ => some unevenPair
    factory := { freshWorld.factory with getPair := fun _ _ => 6 } }

theorem unevenWorld_trading : Trading sixEnv unevenWorld 4 5 unevenPair where
  distinct := by decide
  nonzero := by decide
  registered := by decide
  symmetric := rfl
  deployed := rfl
  token0 := by decide
  positive := ⟨by decide, by decide⟩

def unevenResults : Results where
  getPair := some (hexText 40 6)
  getReserves := some (3000, 2000)
  token0 := some (hexText 40 4)
  token1 := some (hexText 40 5)
  totalSupply := some 0

theorem unevenResults_reads : Reads sixEnv unevenWorld 4 5 unevenPair unevenResults where
  getPair x h := by
    rw [← Option.some.inj h]
    exact spells_hexText 6
  getReserves r h := (Option.some.inj h).symm
  token0 x h := by
    rw [← Option.some.inj h]
    exact spells_hexText 4
  token1 x h := by
    rw [← Option.some.inj h]
    exact spells_hexText 5
  totalSupply n h := (Option.some.inj h).symm

def depositToken (symbol : String) (a : Address) : Token :=
  { symbol := symbol.toList, address := some (hexText 40 a.val), isNative := false, isImported := false }

theorem depositToken_names (symbol : String) (a : Address) :
    Names sixEnv (depositToken symbol a) a := ⟨hexText 40 a.val, rfl, spells_hexText a⟩

/-- Three of a token with two decimals, at the default tolerance. -/
def depositCard : Card where
  tokenA := depositToken "mLINK" 4
  tokenB := depositToken "mUSDC" 5
  decimalsA := 2
  decimalsB := 2
  inputA := "3".toList
  settings := DEFAULT_SETTINGS
  routerAddress := some (hexText 40 2)
  address := some (hexText 40 7)
  isConnected := true
  allowanceA := 9000
  allowanceB := 9000
  isPending := false
  isConfirming := false

def unevenPool : PoolState where
  pair := hexText 40 6
  token0 := hexText 40 4
  token1 := hexText 40 5
  reserve0 := 3000
  reserve1 := 2000
  totalSupply := 0

/-- The pool that the form derives for the two tokens. -/
theorem depositCard_pool (data : Option Results) :
    usePoolState (checksummed sixEnv) (some (hexText 40 3)) (some (hexText 40 1)) depositCard.tokenA
      depositCard.tokenB data = .ok (data.bind (poolAt (hexText 40 6))) := by
  have hdiff : ¬Sdk.toLowerCase (hexText 40 4) = Sdk.toLowerCase (hexText 40 5) := fun h =>
    absurd (((spells_hexText 4).eq_iff (spells_hexText 5)).mp h) (by decide)
  have hderived : Sdk.computePairAddress (checksummed sixEnv) (hexText 40 1) (hexText 40 4)
      (hexText 40 5) = .ok (hexText 40 6) :=
    (Sdk.computePairAddress_eq (checksummed sixEnv) (by decide) (spells_hexText 1) (spells_hexText 4)
      (spells_hexText 5)).trans (by decide +kernel)
  simp only [usePoolState, routedAddress, depositCard, depositToken, Bool.false_eq_true, if_false]
  exact (if_neg hdiff).trans (bind_eq_ok.mpr ⟨_, hderived, rfl⟩)

theorem depositCard_protected : ∃ call, Protected sixEnv depositCard 4 5 unevenPair 300 call ∧
    call = .addLiquidity (hexText 40 4) (hexText 40 5) 300 200 298 199 (hexText 40 7) 1200 := by
  have hhook : usePoolState (checksummed sixEnv) (some (hexText 40 3)) (some (hexText 40 1))
      depositCard.tokenA depositCard.tokenB (some unevenResults) = .ok (some unevenPool) :=
    (depositCard_pool _).trans (by decide +kernel)
  have hpress : depositCard.press plainUnits (some (hexText 40 3)) (some unevenPool)
      (fun _ => .ok 1200) = .ok (some (.addLiquidity (hexText 40 4) (hexText 40 5) 300 200 298 199
        (hexText 40 7) 1200)) := by decide +kernel
  have hamount : depositCard.amountA plainUnits = some 300 := by decide +kernel
  have hsize : 300 * (reserveOf unevenPair 5 : Int) < Uint.size := by decide
  have hloaded : Loaded sixEnv unevenWorld (some (hexText 40 3)) (some (hexText 40 1))
      depositCard.tokenA depositCard.tokenB 4 5 (some unevenResults) :=
    ⟨rfl, rfl, rfl, ⟨unevenResults, rfl, rfl, rfl, rfl, rfl, rfl⟩, rfl⟩
  have hprotected := (deposit_protected_iff (w := unevenWorld) (a := 4) (b := 5) (p := unevenPair)
    (fun x hx => by rw [← Option.some.inj hx]; exact spells_hexText 3)
    (fun x hx => by rw [← Option.some.inj hx]; exact spells_hexText 1)
    (depositToken_names "mLINK" 4) (depositToken_names "mUSDC" 5) unevenWorld_trading
    (fun results hresults => by
      rw [← Option.some.inj hresults]
      exact unevenResults_reads) ⟨[], rfl⟩ hhook hamount hpress).mpr
    ⟨hsize, (fun h => by cases h), .inl hloaded⟩
  exact ⟨_, hprotected, rfl⟩

/-- The same deposit while the read is not answered yet goes out without a bound, and
not at the ratio of the pool. -/
theorem unread_unprotected : ∃ call,
    usePoolState (checksummed sixEnv) (some (hexText 40 3)) (some (hexText 40 1))
      depositCard.tokenA depositCard.tokenB none = .ok none ∧
    Trading sixEnv unevenWorld 4 5 unevenPair ∧ Reached depositCard.settings ∧
    depositCard.press plainUnits (some (hexText 40 3)) none (fun _ => .ok 1200) = .ok (some call) ∧
    call.offered = (300, 300) ∧ call.minimums = (0, 0) ∧
    ¬Protected sixEnv depositCard 4 5 unevenPair 300 call := by
  refine ⟨.addLiquidity (hexText 40 4) (hexText 40 5) 300 300 0 0 (hexText 40 7) 1200,
    depositCard_pool none, unevenWorld_trading, ⟨[], rfl⟩, by decide +kernel, rfl, rfl, fun h => ?_⟩
  have hzero := h.minimums
  revert hzero
  decide

end Market

end LiquidityCard

end ArkSwap
