import ArkSwap.ExchangeRouter
import ArkSwap.ExchangeSound

/-! Whole runs of the exchange: transactions of any accounts, calls of the router among them. -/

namespace ArkSwap

open Checked ArkSwapPair

namespace RouterCall

variable {env : Env} {fees : Prop} {absent : Set Address} {w : World}

/-- Who calls the router: an account other than the router itself. -/
abbrev Trader (env : Env) (absent : Set Address) := {a : Account env absent // a.val ≠ env.router}

def transaction (hs : Premises env fees absent) (sender : Trader env absent) (c : RouterCall) :
    Transaction env fees absent :=
  ⟨fun w => c.exec env w sender.val, fun _ _ h => exec_reach hs sender.property h⟩

end RouterCall

namespace Exchange

variable {env : Env} {fees : Prop} {absent : Set Address} {w w' : World}

theorem Keeps.at_time (h : Ordered env ∅ w) (ts : Nat) :
    Keeps env fees ∅ w { w with timestamp := ts } where
  ordered := h.at_time ts
  feeTo _ := rfl
  carried _ p hp := ⟨p, hp, rfl, rfl, id, fun _ _ _ => Shares.Keeps.refl _ _⟩
  beside _ ha := ha.elim
  logged := .quiet rfl (fun _ => rfl) rfl

theorem step_keeps (hs : Grounds env) (h : Ordered env ∅ w) (tx : Nat × Transaction env fees absent) :
    Keeps env fees ∅ w (step w tx) := by
  have htime : Keeps env fees ∅ w { w with timestamp := tx.1 } := .at_time h tx.1
  rw [step]
  rcases hx : tx.2.val { w with timestamp := tx.1 } with e | w'
  · rwa [attempt_error]
  · rw [attempt_ok]
    exact htime.trans (keeps_of_reach hs (tx.2.property _ _ hx) ∅ htime.ordered)

theorem run_keeps (hs : Grounds env) (h : Ordered env ∅ w) (txs : List (Nat × Transaction env fees absent)) :
    Keeps env fees ∅ w (run w txs) :=
  Run.run_inv (fun w' => Keeps env fees ∅ w w')
    (fun _ tx hk => hk.trans (step_keeps hs hk.ordered tx)) (.refl h) txs

section Site

@[simp] theorem bytesBE_length (k n : Nat) : (bytesBE k n).length = k := by simp [bytesBE]

@[simp] theorem bytesBE_getElem {k i : Nat} (n : Nat) (hi : i < (bytesBE k n).length) :
    (bytesBE k n)[i] = UInt8.ofNat (n / 256 ^ (k - 1 - i)) := by simp [bytesBE]

/-- A small number that is neither of two bytes. -/
def spare (x y : UInt8) : Nat :=
  if x ≠ 10 ∧ y ≠ 10 then 10 else if x ≠ 11 ∧ y ≠ 11 then 11 else 12

theorem spare_cases (x y : UInt8) :
    ∃ n : Nat, (n = 10 ∨ n = 11 ∨ n = 12) ∧ spare x y = n ∧ x ≠ UInt8.ofNat n ∧
      y ≠ UInt8.ofNat n := by
  unfold spare
  by_cases h : x ≠ 10 ∧ y ≠ 10
  · exact ⟨10, by simp, if_pos h, h⟩
  · by_cases h' : x ≠ 11 ∧ y ≠ 11
    · exact ⟨11, by simp, by rw [if_neg h, if_pos h'], h'⟩
    · refine ⟨12, by simp, by rw [if_neg h, if_neg h'], ?_⟩
      rw [not_and_or, not_not, not_not] at h h'
      rcases h with rfl | rfl
      · obtain rfl := h'.resolve_left (by decide)
        decide
      · obtain rfl := h'.resolve_right (by decide)
        decide

/-- A hash that puts no pair at one of its own tokens. -/
def sideHash (bytes : List UInt8) : Nat :=
  if bytes.length = 40 then spare (bytes.getD 19 0) (bytes.getD 39 0) else (bytes.getD 52 0).toNat

def siteEnv : Env := { plainEnv with keccak256 := sideHash }

theorem siteEnv_pool (token0 token1 : Address) :
    ∃ n : Nat, (n = 10 ∨ n = 11 ∨ n = 12) ∧
      create2 siteEnv (pairSalt siteEnv token0 token1) siteEnv.pairCodeHash =
        Fin.ofNat (2 ^ 160) n ∧
      UInt8.ofNat token0.val ≠ UInt8.ofNat n ∧ UInt8.ofNat token1.val ≠ UInt8.ofNat n := by
  have hsalt : pairSalt siteEnv token0 token1 =
      spare (UInt8.ofNat token0.val) (UInt8.ofNat token1.val) := by
    simp [pairSalt, siteEnv, sideHash, encodeAddress]
  have hpool : ∀ salt codeHash,
      create2 siteEnv salt codeHash = Fin.ofNat (2 ^ 160) (salt % 256) := by
    intro salt codeHash
    simp [create2, siteEnv, sideHash, encodeAddress]
  obtain ⟨n, hn, hspare, h₀, h₁⟩ := spare_cases (UInt8.ofNat token0.val) (UInt8.ofNat token1.val)
  refine ⟨n, hn, ?_, h₀, h₁⟩
  rw [hpool, hsalt, hspare]
  rcases hn with rfl | rfl | rfl <;> rfl

theorem siteEnv_free {a : Address} (h : a < 10) : ¬Pooled siteEnv a := by
  rintro ⟨token0, token1, rfl⟩
  obtain ⟨n, hn, hpool, -, -⟩ := siteEnv_pool token0 token1
  rw [hpool] at h
  rcases hn with rfl | rfl | rfl <;> revert h <;> decide

theorem siteEnv_grounds : Grounds siteEnv where
  standard _ _ _ _ := rfl
  WETH_free := siteEnv_free (by decide)
  unsigned _ _ _ _ := siteEnv_free (a := 0) (by decide)
  apart token0 token1 := by
    obtain ⟨n, hn, hpool, h₀, h₁⟩ := siteEnv_pool token0 token1
    rw [hpool]
    constructor <;> rintro rfl
    · rcases hn with rfl | rfl | rfl <;> exact h₀ rfl
    · rcases hn with rfl | rfl | rfl <;> exact h₁ rfl

theorem siteEnv_premises (hrouter : siteEnv.router ∉ absent) : Premises siteEnv fees absent where
  toGrounds := siteEnv_grounds
  router_ne := by decide
  router_ne_WETH := by decide
  router_free := siteEnv_free (by decide)
  router_present := hrouter
  receive _ w w' h := by
    obtain rfl : w = w' := Except.ok.inj h
    exact .refl w

theorem siteEnv_open : Premises siteEnv fees ∅ := siteEnv_premises (Set.notMem_empty _)

/-- Account 7 holds all of every token and lets the router spend it; there is no pair. -/
def siteWorld : World where
  timestamp := 0
  token a := if a = 10 ∨ a = 11 ∨ a = 12 then .initial else heldToken.approve 7 2 10000
  pair _ := none
  factory := { feeTo := 0, feeToSetter := 7, getPair := fun _ _ => 0, allPairs := [] }
  native a := if a = 3 then 10000 else 0
  logs := []

theorem siteWorld_genesis : Genesis siteEnv siteWorld where
  factory := ⟨fun _ _ => rfl, rfl⟩
  unpaired _ := rfl
  conserved t := by
    unfold siteWorld
    dsimp only
    split
    · exact ArkSwapERC20.initial_conserved
    · exact heldToken_conserved
  unapproved t o s ho := by
    have hne : o ≠ 7 := by
      rintro rfl
      exact ho.elim (by decide) (siteEnv_free (by decide))
    unfold siteWorld
    dsimp only
    split
    · rfl
    · simp [ArkSwapERC20.approve, Function.update_of_ne hne, heldToken, ArkSwapERC20.initial]
  vacant a := by
    rintro ⟨token0, token1, rfl⟩
    obtain ⟨n, hn, hpool, -, -⟩ := siteEnv_pool token0 token1
    rw [hpool]
    rcases hn with rfl | rfl | rfl <;> rfl
  backed := by decide

def siteHolder : Account siteEnv ∅ :=
  ⟨7, by decide, by decide, siteEnv_free (by decide), Set.notMem_empty 7⟩

def siteTrader : RouterCall.Trader siteEnv ∅ := ⟨siteHolder, by decide⟩

/-- The first deposit creates the pair of tokens 4 and 5. -/
def firstCall : Nat × RouterCall.Trader siteEnv ∅ × RouterCall :=
  (2, siteTrader, .addLiquidity 4 5 4000 4000 0 0 7 9)

def opening : List (Nat × Transaction siteEnv True ∅) :=
  [(2, RouterCall.transaction siteEnv_open siteTrader firstCall.2.2)]

def trading : List (Nat × Transaction siteEnv False ∅) :=
  [(3, RouterCall.transaction siteEnv_open siteTrader (.swapExactTokensForTokens 1000 0 [4, 5] 8 9))]

theorem opening_result :
    (run siteWorld opening).factory.allPairs = [10] ∧ (run siteWorld opening).factory.feeTo = 0 ∧
      0 < ((run siteWorld opening).token 10).totalSupply ∧
      0 < (run siteWorld opening).balanceOf siteEnv.WETH siteHolder ∧
      published (run siteWorld opening).logs 10 =
        some { token0 := 4, token1 := 5, reserve0 := 4000, reserve1 := 4000 } := by
  decide +kernel

theorem trading_result :
    ((run siteWorld opening).pair 10).isSome = true ∧
      (run siteWorld opening).pair 10 ≠ (run (run siteWorld opening) trading).pair 10 := by
  decide +kernel

end Site

/-- From the deployment of the factory on, after any transactions of any accounts, every pair
is in its place and sound, the registry is in order, no ledger lost or made up anything and
wrapped KASH is backed. -/
theorem run_ordered (hs : Grounds env) (h : Genesis env w)
    (txs : List (Nat × Transaction env fees absent)) : Ordered env ∅ (run w txs) :=
  (run_keeps hs h.ordered txs).ordered

theorem opening_ordered :
    Ordered siteEnv ∅ (run siteWorld opening) ∧ (run siteWorld opening).factory.allPairs = [10] :=
  ⟨run_ordered siteEnv_grounds siteWorld_genesis opening, opening_result.1⟩

/-- Whatever happened before, from a moment at which the protocol takes no fee on and for as
long as it takes none, no transactions lower what a share of a pair is worth. -/
theorem run_keeps_worth (hs : Grounds env) (h : Genesis env w)
    (before : List (Nat × Transaction env True ∅)) (after : List (Nat × Transaction env False ∅))
    (hfee : (run w before).factory.feeTo = 0) {a : Address} {p : ArkSwapPair}
    (hp : (run w before).pair a = some p) (hS : 0 < ((run w before).token a).totalSupply) :
    ∃ q, (run (run w before) after).pair a = some q ∧ q.token0 = p.token0 ∧
      q.token1 = p.token1 ∧ 0 < ((run (run w before) after).token a).totalSupply ∧
      p.reserve0 * p.reserve1 * ((run (run w before) after).token a).totalSupply ^ 2 ≤
        q.reserve0 * q.reserve1 * ((run w before).token a).totalSupply ^ 2 := by
  have hk := run_keeps hs (run_ordered hs h before) after
  obtain ⟨q, hq, hc⟩ := hk.carried a p hp
  exact ⟨q, hq, hc.token0, hc.token1, hc.minted hS, hc.worth not_false hfee hS⟩

theorem trading_keeps_worth :
    ∃ p q, (run siteWorld opening).pair 10 = some p ∧
      (run (run siteWorld opening) trading).pair 10 = some q ∧ p ≠ q ∧
      p.reserve0 * p.reserve1 * ((run (run siteWorld opening) trading).token 10).totalSupply ^ 2 ≤
        q.reserve0 * q.reserve1 * ((run siteWorld opening).token 10).totalSupply ^ 2 := by
  obtain ⟨-, hfee, hminted, -⟩ := opening_result
  obtain ⟨hsome, hmoved⟩ := trading_result
  obtain ⟨p, hp⟩ := Option.isSome_iff_exists.mp hsome
  obtain ⟨q, hq, -, -, -, hworth⟩ := run_keeps_worth siteEnv_grounds siteWorld_genesis opening
    trading hfee hp hminted
  refine ⟨p, q, hp, hq, ?_, hworth⟩
  rintro rfl
  exact hmoved (hp.trans hq.symm)

/-- Who reads the log of the factory and of the pairs from the beginning knows all pairs,
their tokens and their reserves, after any transactions, with swaps nested in whatever way. -/
theorem run_mirrored (hs : Grounds env) (h : Genesis env w) (hlogs : w.logs = [])
    (txs : List (Nat × Transaction env fees absent)) : Mirrored (run w txs) :=
  (run_keeps hs h.ordered txs).logged.mirrored (mirrored_of_empty hlogs h.unpaired h.factory.2)

theorem opening_mirrored : Mirrored (run siteWorld opening) ∧
    published (run siteWorld opening).logs 10 =
      some { token0 := 4, token1 := 5, reserve0 := 4000, reserve1 := 4000 } :=
  ⟨run_mirrored siteEnv_grounds siteWorld_genesis rfl opening, opening_result.2.2.2.2⟩

/-- One after the other, accounts unwrap all they hold. -/
def redeemAll (env : Env) : World → List (Account env absent) → Except String World
  | w, [] => .ok w
  | w, src :: rest => do
      let w ← WKASH.unwrap env w src (w.balanceOf env.WETH src)
      redeemAll env w rest

/-- The account takes native KASH whenever it is sent some. -/
def Accepts (env : Env) (dst : Address) : Prop := ∀ w, WKASH.accept env w dst = .ok ()

theorem unwrap_balance {src : Account env absent} (h : Ordered env ∅ w) (haccepts : Accepts env src) :
    ∃ w', WKASH.unwrap env w src (w.balanceOf env.WETH src) = .ok w' := by
  have hsupply : w.balanceOf env.WETH src ≤ (w.token env.WETH).totalSupply := by
    rw [← (h.conserved env.WETH).1]
    exact Ledger.le_sum (w.token env.WETH).balanceOf src
  obtain ⟨t, hburn⟩ : ∃ t, (w.token env.WETH).burn src (w.balanceOf env.WETH src) = .ok t :=
    ⟨_, ArkSwapERC20.burn_eq_ok.mpr ⟨le_refl _, hsupply, rfl⟩⟩
  exact ⟨_, WKASH.unwrap_eq_ok.mpr ⟨t, hburn, hsupply.trans h.backed, haccepts _, rfl⟩⟩

theorem redeemAll_ok (hs : Grounds env) (h : Ordered env ∅ w) (holders : List (Account env absent))
    (haccept : ∀ src ∈ holders, Accepts env src) : ∃ w', redeemAll env w holders = .ok w' := by
  induction holders generalizing w with
  | nil => exact ⟨w, rfl⟩
  | cons src rest ih =>
    obtain ⟨w₁, hw₁⟩ : ∃ w₁, WKASH.unwrap env w src (w.balanceOf env.WETH src) = .ok w₁ :=
      unwrap_balance h (haccept src List.mem_cons_self)
    have hreach : Reach env False absent w w₁ := .unwrap src hw₁
    have hordered := (keeps_of_reach hs hreach ∅ h).ordered
    obtain ⟨w', hw'⟩ := ih hordered fun next hnext => haccept next (List.mem_cons_of_mem src hnext)
    exact ⟨w', by rw [redeemAll, hw₁, ok_bind, hw']⟩

/-- After any transactions, all accounts that accept native KASH can take their wrapped KASH out,
in whatever order. -/
theorem run_redeemable (hs : Grounds env) (h : Genesis env w)
    (txs : List (Nat × Transaction env fees absent)) (holders : List (Account env absent))
    (haccept : ∀ src ∈ holders, Accepts env src) :
    ∃ w', redeemAll env (run w txs) holders = .ok w' :=
  redeemAll_ok hs (run_ordered hs h txs) holders haccept

theorem siteEnv_accepts (dst : Address) : Accepts siteEnv dst := by
  intro w
  unfold WKASH.accept
  split
  · rfl
  · rfl

theorem opening_redeemable : 0 < (run siteWorld opening).balanceOf siteEnv.WETH siteHolder ∧
    ∃ w', redeemAll siteEnv (run siteWorld opening) [siteHolder] = .ok w' :=
  ⟨opening_result.2.2.2.1, run_redeemable siteEnv_grounds siteWorld_genesis opening [siteHolder]
    fun src _ => siteEnv_accepts src⟩

end Exchange

namespace RouterCall

variable {env : Env} {fees : Prop} {absent : Set Address} {w : World}

/-- A call of the router in a block of the given time; a failed one changes nothing. -/
def step (w : World) (c : Nat × Trader env absent × RouterCall) : World :=
  attempt { w with timestamp := c.1 } (c.2.2.exec env { w with timestamp := c.1 } c.2.1.val)

/-- Calls of the router's functions by any accounts leave the exchange in order, whatever the
recipients of native KASH call when it reaches them. -/
theorem calls_ordered (hs : Premises env fees absent) (h : Exchange.Genesis env w)
    (calls : List (Nat × Trader env absent × RouterCall)) :
    Exchange.Ordered env ∅ (Run.run step w calls) :=
  Run.run_inv (Exchange.Ordered env ∅)
    (fun _ c ho => (Exchange.step_keeps hs.toGrounds ho (c.1, transaction hs c.2.1 c.2.2)).ordered)
    h.ordered calls

theorem firstCall_ordered :
    Exchange.Ordered Exchange.siteEnv ∅ (Run.run step Exchange.siteWorld [Exchange.firstCall]) ∧
      (Run.run step Exchange.siteWorld [Exchange.firstCall]).factory.allPairs = [10] :=
  ⟨calls_ordered (Exchange.siteEnv_open : Premises Exchange.siteEnv False ∅) Exchange.siteWorld_genesis
    [Exchange.firstCall], Exchange.opening_result.1⟩

end RouterCall

end ArkSwap
