import ArkSwap.SwapSearch

/-! The route of the swap form is the best over all simple paths through at most
two hubs: every such path is a candidate, and the scan skips only those that
cannot be quoted. -/

namespace ArkSwap

open Checked Web

namespace UseSwapRoute

/-- A path between two addresses with at most two hubs in between, which visits
no token twice. -/
def HubPath (wkashAddress : Option Text) (hubs : List Token) (inAddr outAddr : Text)
    (path : List Text) : Prop :=
  ∃ mids, path = inAddr :: (mids ++ [outAddr]) ∧ mids.length ≤ 2 ∧
    (∀ m ∈ mids, ∃ h ∈ hubs, routedAddress wkashAddress h = some m) ∧
    (path.map Sdk.toLowerCase).Nodup

/-- A token that has an address, or is native. -/
def Keyed (token : Token) : Prop :=
  token.isNative = true ∨ ∃ x a, token.address = some x ∧ Spells x a

section Candidates

variable {wkashAddress : Option Text} {hubs : List Token} {h tokenIn tokenOut : Token} {hs : List Hub}
  {inAddr outAddr symbolIn symbolOut m x : Text} {path : List Text} {a b : Address}

theorem tokenKey_of_address (hnative : h.isNative = false) (hx : h.address = some x) :
    tokenKey h = .ok (Sdk.toLowerCase x) := by
  rw [tokenKey, if_neg (Bool.eq_false_iff.mp hnative), hx]

theorem tokenKey_ok (hkeyed : Keyed h) : ∃ key, tokenKey h = .ok key := by
  rcases hnative : h.isNative with _ | _
  · rcases hkeyed with hnative' | ⟨x, a, hx, -⟩
    · rw [hnative] at hnative'
      cases hnative'
    · exact ⟨_, tokenKey_of_address hnative hx⟩
  · exact ⟨_, if_pos hnative⟩

/-- Two tokens of one identity are traded under one address. -/
theorem routed_of_sameKey {t u : Token} {key y : Text} (ht : Keyed t) (hu : Keyed u)
    (hkey : tokenKey t = .ok key) (hkey' : tokenKey u = .ok key)
    (hx : routedAddress wkashAddress t = some x) (hy : routedAddress wkashAddress u = some y) :
    Sdk.toLowerCase x = Sdk.toLowerCase y := by
  have hnot : ∀ v : Token, Keyed v → v.isNative = false → tokenKey v ≠ .ok "NATIVE".toList := by
    intro v hv hnative hnot
    rcases hv with hnative' | ⟨z, c, hz, hspells⟩
    · rw [hnative] at hnative'
      cases hnative'
    · rw [tokenKey_of_address hnative hz, hspells.toLowerCase] at hnot
      have hhead : some '0' = some 'N' := congrArg List.head? (Except.ok.inj hnot)
      exact absurd hhead (by decide)
  unfold routedAddress at hx hy
  rcases htn : t.isNative with _ | _ <;> rcases hun : u.isNative with _ | _
  · rw [htn] at hx
    rw [hun] at hy
    rw [tokenKey_of_address htn hx] at hkey
    rw [tokenKey_of_address hun hy] at hkey'
    exact (Except.ok.inj hkey).trans (Except.ok.inj hkey').symm
  · rw [tokenKey, if_pos hun] at hkey'
    exact (hnot t ht htn (hkey.trans hkey'.symm)).elim
  · rw [tokenKey, if_pos htn] at hkey
    exact (hnot u hu hun (hkey'.trans hkey.symm)).elim
  · rw [htn] at hx
    rw [hun] at hy
    rw [Option.some.inj (hx.symm.trans hy)]

theorem isOther_ok {keyIn keyOut : Text} (hh : Keyed h) (hkeyIn : tokenKey tokenIn = .ok keyIn)
    (hkeyOut : tokenKey tokenOut = .ok keyOut) : isOther tokenIn tokenOut h =
      .ok (decide (tokenKey h ≠ .ok keyIn ∧ tokenKey h ≠ .ok keyOut)) := by
  obtain ⟨key, hkey⟩ := tokenKey_ok hh
  simp only [isOther, sameToken, hkey, hkeyIn, hkeyOut, ok_bind, pure_eq_ok]
  by_cases hin : key = keyIn
  · simp [hin]
  · by_cases hout : key = keyOut <;> simp [hin, hout]

/-- The hubs that remain are those traded under a third address. -/
theorem usableHubs_ok (hhubs : ∀ h ∈ hubs, Keyed h) (hin : Keyed tokenIn) (hout : Keyed tokenOut)
    (hinAddr : routedAddress wkashAddress tokenIn = some inAddr)
    (houtAddr : routedAddress wkashAddress tokenOut = some outAddr) :
    ∃ hs, usableHubs wkashAddress hubs tokenIn tokenOut = .ok hs ∧
      ∀ m, (∃ h ∈ hs, h.addr = m) ↔ (∃ h ∈ hubs, routedAddress wkashAddress h = some m) ∧
        Sdk.toLowerCase m ≠ Sdk.toLowerCase inAddr ∧ Sdk.toLowerCase m ≠ Sdk.toLowerCase outAddr := by
  obtain ⟨keyIn, hkeyIn⟩ := tokenKey_ok hin
  obtain ⟨keyOut, hkeyOut⟩ := tokenKey_ok hout
  rw [usableHubs, filterM_ok fun h hh => isOther_ok (hhubs h hh) hkeyIn hkeyOut]
  refine ⟨_, rfl, fun m => ?_⟩
  simp only [List.mem_filter, List.mem_filterMap, decide_eq_true_eq, hinAddr, houtAddr,
    Option.map_some, ne_eq, Option.some.injEq, Option.map_eq_some_iff]
  constructor
  · rintro ⟨_, ⟨⟨h, ⟨hh, -⟩, addr, hrouted, rfl⟩, hni, hno⟩, rfl⟩
    exact ⟨⟨h, hh, hrouted⟩, hni, hno⟩
  · rintro ⟨⟨h, hh, hrouted⟩, hni, hno⟩
    refine ⟨⟨m, h.symbol⟩, ⟨⟨h, ⟨hh, fun hsame => hni ?_, fun hsame => hno ?_⟩, m, hrouted, rfl⟩,
      hni, hno⟩, rfl⟩
    · exact routed_of_sameKey (hhubs h hh) hin hsame hkeyIn hrouted hinAddr
    · exact routed_of_sameKey (hhubs h hh) hout hsame hkeyOut hrouted houtAddr

theorem mem_candidatesFrom (hne : Sdk.toLowerCase inAddr ≠ Sdk.toLowerCase outAddr)
    (hhubs : ∀ h ∈ hs, Sdk.toLowerCase h.addr ≠ Sdk.toLowerCase inAddr ∧
      Sdk.toLowerCase h.addr ≠ Sdk.toLowerCase outAddr) :
    (∃ c ∈ candidatesFrom hs inAddr outAddr symbolIn symbolOut, c.path = path) ↔
      ∃ mids, path = inAddr :: (mids ++ [outAddr]) ∧ mids.length ≤ 2 ∧
        (∀ m ∈ mids, ∃ h ∈ hs, h.addr = m) ∧ (path.map Sdk.toLowerCase).Nodup := by
  rw [candidatesFrom, if_neg hne]
  simp only [List.cons_append, List.mem_cons, List.mem_append, List.mem_map, List.mem_flatMap,
    List.mem_filterMap, Option.ite_none_left_eq_some, Option.some.injEq]
  constructor
  · rintro ⟨_, rfl | ⟨h, hh, rfl⟩ | ⟨g, hg, h, hh, hdiff, rfl⟩, rfl⟩
    · exact ⟨[], rfl, by simp, by simp, by simp [hne]⟩
    · obtain ⟨hni, hno⟩ := hhubs h hh
      refine ⟨[h.addr], rfl, by simp, ?_, by simp [hne, hno, hni.symm]⟩
      intro m hm
      exact ⟨h, hh, (List.mem_singleton.mp hm).symm⟩
    · obtain ⟨hgi, hgo⟩ := hhubs g hg
      obtain ⟨hni, hno⟩ := hhubs h hh
      refine ⟨[g.addr, h.addr], rfl, by simp, ?_,
        by simp [hne, hno, hni.symm, hgi.symm, hgo, hdiff]⟩
      intro m hm
      rcases List.mem_cons.mp hm with rfl | hm
      · exact ⟨g, hg, rfl⟩
      · exact ⟨h, hh, (List.mem_singleton.mp hm).symm⟩
  · rintro ⟨_ | ⟨m, _ | ⟨n, _ | ⟨k, rest⟩⟩⟩, rfl, hlength, hmids, hnodup⟩
    · exact ⟨_, Or.inl rfl, rfl⟩
    · obtain ⟨h, hh, rfl⟩ := hmids m List.mem_cons_self
      exact ⟨_, Or.inr (Or.inl ⟨h, hh, rfl⟩), rfl⟩
    · obtain ⟨g, hg, rfl⟩ := hmids m List.mem_cons_self
      obtain ⟨h, hh, rfl⟩ := hmids n (List.mem_cons_of_mem _ List.mem_cons_self)
      refine ⟨_, Or.inr (Or.inr ⟨g, hg, h, hh, fun hsame => ?_, rfl⟩), rfl⟩
      simp [hsame] at hnodup
    · simp only [List.length_cons] at hlength
      omega

end Candidates

/-- The hops of a path, each with the address of its pair. -/
inductive HopsOf {env : Env} (viem : Viem env) (factory : Text) : List Text → List Hop → Prop
  | single (x : Text) : HopsOf viem factory [x] []
  | cons {x y pair : Text} {path : List Text} {hops : List Hop} :
      Sdk.computePairAddress viem factory x y = .ok pair → HopsOf viem factory (y :: path) hops →
      HopsOf viem factory (x :: y :: path) (⟨pair, x, y⟩ :: hops)

/-- The pools that the chain answers for, with reserves on both sides. -/
def livePools (answer : Option (Contract → Result)) : Pools := fun key =>
  answer.bind fun answer =>
    liveReserves (some (answer ⟨key, .getReserves⟩)) (some (answer ⟨key, .token0⟩))

/-- All pools of the path are live, and its quote is this one. -/
def Quoted {env : Env} (viem : Viem env) (factory : Text) (answer : Option (Contract → Result))
    (side : SwapSide) (amount : Int) (path : List Text) (q : Quote) : Prop :=
  ∃ hops, HopsOf viem factory path hops ∧
    (∀ hop ∈ hops, (livePools answer (Sdk.toLowerCase hop.pair)).isSome = true) ∧
    quote side hops (livePools answer) amount = .ok (some q)

section Pools

variable {env : Env} {viem : Viem env} {factory x y key pair : Text} {path keys : List Text}
  {hops : List Hop} {pools pools' : Pools} {answer : Contract → Result} {a b : Address}
  {cs : List Candidate} {side : SwapSide} {amount : Int}

/-- A path of distinct addresses. -/
def Spelled (path : List Text) : Prop :=
  (∀ x ∈ path, ∃ a, Spells x a) ∧ (path.map Sdk.toLowerCase).Nodup

theorem pairAddress_ok (hf : Spells factory env.factory) (hx : Spells x a) (hy : Spells y b)
    (hne : Sdk.toLowerCase x ≠ Sdk.toLowerCase y) :
    ∃ pair c, Sdk.computePairAddress viem factory x y = .ok pair ∧ Spells pair c := by
  have hab : a ≠ b := fun h => hne ((hx.eq_iff hy).mpr h)
  obtain ⟨pair, hpair, hspells⟩ :=
    viem.getAddress_spells (spells_hexText (ArkSwapLibrary.pool env a b))
  exact ⟨pair, _, (Sdk.computePairAddress_eq viem hab hf hx hy).trans hpair, hspells⟩

theorem Spelled.tail (h : Spelled (x :: path)) : Spelled path :=
  ⟨fun y hy => h.1 y (List.mem_cons_of_mem x hy), (List.nodup_cons.mp h.2).2⟩

theorem Spelled.pair_ok (viem : Viem env) (hf : Spells factory env.factory) (h : Spelled (x :: y :: path)) :
    ∃ pair c, Sdk.computePairAddress viem factory x y = .ok pair ∧ Spells pair c := by
  obtain ⟨a, hx⟩ := h.1 x List.mem_cons_self
  obtain ⟨b, hy⟩ := h.1 y (List.mem_cons_of_mem x List.mem_cons_self)
  refine pairAddress_ok hf hx hy fun hsame => ?_
  have hnodup := h.2
  simp [hsame] at hnodup

theorem exists_hops (viem : Viem env) (hf : Spells factory env.factory) (h : Spelled (x :: path)) :
    ∃ hops, HopsOf viem factory (x :: path) hops := by
  induction path generalizing x with
  | nil => exact ⟨[], .single x⟩
  | cons y path ih =>
    obtain ⟨pair, c, hpair, -⟩ := h.pair_ok viem hf
    obtain ⟨hops, hhops⟩ := ih h.tail
    exact ⟨_, .cons hpair hhops⟩

theorem HopsOf.unique {hops' : List Hop} (h : HopsOf viem factory path hops)
    (h' : HopsOf viem factory path hops') : hops = hops' := by
  induction h generalizing hops' with
  | single x =>
    cases h'
    rfl
  | cons hpair _ ih =>
    cases h' with
    | cons hpair' hrest' =>
      obtain rfl := Except.ok.inj (hpair.symm.trans hpair')
      rw [ih hrest']

/-- The hops of a path are usable where all their pools are there. -/
theorem usableHops_eq (h : HopsOf viem factory path hops) : usableHops viem factory pools path =
    .ok (if ∀ hop ∈ hops, (pools (Sdk.toLowerCase hop.pair)).isSome = true then some hops
      else none) := by
  induction h with
  | single x => simp [usableHops]
  | @cons x y pair path hops hpair hrest ih =>
    rw [usableHops, hpair, ok_bind, ih]
    rcases hpool : pools (Sdk.toLowerCase pair) with _ | pool
    · simp [hpool]
    · simp [hpool]

theorem edge_ok (hf : Spells factory env.factory) (h : Spelled path) {e : Text × Text}
    (he : e ∈ path.zip path.tail) :
    ∃ pair c, Sdk.computePairAddress viem factory e.1 e.2 = .ok pair ∧ Spells pair c := by
  rcases path with _ | ⟨x, path⟩
  · simp at he
  · induction path generalizing x with
    | nil => simp at he
    | cons y path ih =>
      rw [List.tail_cons, List.zip_cons_cons, List.mem_cons] at he
      rcases he with rfl | he
      · exact h.pair_ok viem hf
      · exact ih y h.tail he

theorem HopsOf.edge (h : HopsOf viem factory path hops) {hop : Hop} (hhop : hop ∈ hops) :
    (hop.tokenIn, hop.tokenOut) ∈ path.zip path.tail ∧
      Sdk.computePairAddress viem factory hop.tokenIn hop.tokenOut = .ok hop.pair := by
  induction h with
  | single x => simp at hhop
  | cons hpair hrest ih =>
    rcases List.mem_cons.mp hhop with rfl | hhop
    · exact ⟨by simp, hpair⟩
    · obtain ⟨hedge, hcompute⟩ := ih hhop
      exact ⟨by rw [List.tail_cons, List.zip_cons_cons]; exact List.mem_cons_of_mem _ hedge, hcompute⟩

theorem mem_setKey : key ∈ setKey keys x ↔ key ∈ keys ∨ key = x := by
  unfold setKey
  split
  · rename_i hx
    constructor
    · exact Or.inl
    · rintro (hkey | rfl)
      · exact hkey
      · exact hx
  · simp

/-- One step of the set for each edge: every pair of an edge is in it. -/
theorem setKeys_ok {edges : List (Text × Text)} (hedges : ∀ e ∈ edges, ∃ pair c,
      Sdk.computePairAddress viem factory e.1 e.2 = .ok pair ∧ Spells pair c)
    (hkeys : ∀ key ∈ keys, Sdk.toLowerCase key = key) :
    ∃ keys', edges.foldlM (addPair viem factory) keys = .ok keys' ∧
      (∀ key ∈ keys', Sdk.toLowerCase key = key) ∧ (∀ key ∈ keys, key ∈ keys') ∧
      ∀ e ∈ edges, ∀ pair, Sdk.computePairAddress viem factory e.1 e.2 = .ok pair →
        Sdk.toLowerCase pair ∈ keys' := by
  induction edges generalizing keys with
  | nil => exact ⟨keys, rfl, hkeys, fun _ h => h, fun e he => (List.not_mem_nil he).elim⟩
  | cons e edges ih =>
    obtain ⟨pair, c, hpair, hspells⟩ := hedges e List.mem_cons_self
    have hlower : Sdk.toLowerCase (Sdk.toLowerCase pair) = Sdk.toLowerCase pair := by
      rw [hspells.toLowerCase, (spells_hexText c).toLowerCase]
    have hkeys' : ∀ key ∈ setKey keys (Sdk.toLowerCase pair), Sdk.toLowerCase key = key := by
      intro key hkey
      rcases mem_setKey.mp hkey with hkey | rfl
      · exact hkeys key hkey
      · exact hlower
    obtain ⟨keys', hrun, hlow, hle, hall⟩ :=
      ih (fun e he => hedges e (List.mem_cons_of_mem _ he)) hkeys'
    refine ⟨keys', ?_, hlow, fun key hkey => hle key (mem_setKey.mpr (Or.inl hkey)), ?_⟩
    · rw [List.foldlM_cons, addPair, hpair]
      exact hrun
    · intro e' he' pair' hpair'
      rcases List.mem_cons.mp he' with rfl | he'
      · obtain rfl := Except.ok.inj (hpair.symm.trans hpair')
        exact hle _ (mem_setKey.mpr (Or.inr rfl))
      · exact hall e' he' pair' hpair'

theorem pairAddrs_ok (viem : Viem env) (hf : Spells factory env.factory) (hcs : ∀ c ∈ cs, Spelled c.path) :
    ∃ keys, pairAddrs viem factory cs = .ok keys ∧ (∀ key ∈ keys, Sdk.toLowerCase key = key) ∧
      ∀ c ∈ cs, ∀ hops, HopsOf viem factory c.path hops →
        ∀ hop ∈ hops, Sdk.toLowerCase hop.pair ∈ keys := by
  have hedges : ∀ e ∈ cs.flatMap fun c => c.path.zip c.path.tail, ∃ pair c,
      Sdk.computePairAddress viem factory e.1 e.2 = .ok pair ∧ Spells pair c := by
    intro e he
    obtain ⟨c, hc, he⟩ := List.mem_flatMap.mp he
    exact edge_ok hf (hcs c hc) he
  have hnone : ∀ key ∈ ([] : List Text), Sdk.toLowerCase key = key :=
    fun key hkey => (List.not_mem_nil hkey).elim
  obtain ⟨keys, hrun, hlow, -, hall⟩ := setKeys_ok hedges hnone
  refine ⟨keys, hrun, hlow, fun c hc hops hhops hop hhop => ?_⟩
  obtain ⟨hedge, hpair⟩ := hhops.edge hhop
  exact hall _ (List.mem_flatMap.mpr ⟨c, hc, hedge⟩) _ hpair

/-- Each pool that was asked for is known by its two answers. -/
theorem addPools_eq (hlow : ∀ key ∈ keys, Sdk.toLowerCase key = key) {k : Nat} {data before : List Result}
    (hbefore : before.length = k * 2) (hdata : data = before ++ (contracts keys).map answer) :
    (keys.zipIdx k).foldl (addPool data) pools key =
      if key ∈ keys then (livePools (some answer) key).or (pools key) else pools key := by
  induction keys generalizing k before pools with
  | nil => simp
  | cons p keys ih =>
    have hsplit : data = (before ++ [answer ⟨p, .getReserves⟩, answer ⟨p, .token0⟩]) ++
        (contracts keys).map answer := by
      rw [hdata, contracts, List.flatMap_cons, ← contracts, List.map_append, List.append_assoc]
      rfl
    have hfirst : data[k * 2]? = some (answer ⟨p, .getReserves⟩) := by
      rw [hsplit, ← hbefore]
      simp
    have hsecond : data[k * 2 + 1]? = some (answer ⟨p, .token0⟩) := by
      rw [hsplit, ← hbefore]
      simp
    rw [List.zipIdx_cons, List.foldl_cons, ih (fun key hkey => hlow key (List.mem_cons_of_mem p hkey))
      (by simp [hbefore]; omega) hsplit, addPool, hfirst, hsecond, hlow p List.mem_cons_self]
    have hlive : livePools (some answer) p =
        liveReserves (some (answer ⟨p, .getReserves⟩)) (some (answer ⟨p, .token0⟩)) := rfl
    rw [← hlive]
    by_cases hp : key = p
    · subst hp
      rcases hkey : livePools (some answer) key with _ | pool <;> simp
    · rcases hkey : livePools (some answer) p with _ | pool <;> simp [hp]

theorem readPools_eq {answer : Option (Contract → Result)}
    (hlow : ∀ key ∈ keys, Sdk.toLowerCase key = key) (hkey : key ∈ keys) :
    readPools keys (answer.map fun answer => (contracts keys).map answer) key =
      livePools answer key := by
  rcases answer with _ | answer
  · rfl
  · have hlength : ([] : List Result).length = 0 * 2 := rfl
    have hdata : (contracts keys).map answer = [] ++ (contracts keys).map answer := rfl
    rw [Option.map_some, readPools, addPools_eq hlow hlength hdata, if_pos hkey, Option.or_none]

theorem foldlM_congr_pools {σ : Type} {f g : σ → Hop → Except String σ}
    (h : ∀ hop ∈ hops, ∀ s, f s hop = g s hop) (s : σ) : hops.foldlM f s = hops.foldlM g s := by
  induction hops generalizing s with
  | nil => rfl
  | cons hop hops ih =>
    rw [List.foldlM_cons, List.foldlM_cons, h hop List.mem_cons_self]
    exact congrArg _ (funext fun t => ih (fun hop' hhop => h hop' (List.mem_cons_of_mem hop hhop)) t)

/-- A quote only looks at the pools of its hops. -/
theorem quote_congr (h : ∀ hop ∈ hops, pools (Sdk.toLowerCase hop.pair) =
    pools' (Sdk.toLowerCase hop.pair)) : quote side hops pools amount = quote side hops pools' amount := by
  have hpool : ∀ hop ∈ hops, poolOf pools hop = poolOf pools' hop := by
    intro hop hhop
    rw [poolOf, poolOf, h hop hhop]
  cases side with
  | exactIn =>
    have hwalk : ∀ s, hops.foldlM (hopIn pools) s = hops.foldlM (hopIn pools') s :=
      foldlM_congr_pools fun hop hhop s => by rw [hopIn, hopIn, hpool hop hhop]
    rw [quote, quote, quoteExactIn, quoteExactIn, hwalk]
  | exactOut =>
    have hwalk : ∀ s, hops.reverse.foldlM (hopOut pools) s = hops.reverse.foldlM (hopOut pools') s :=
      foldlM_congr_pools fun hop hhop s => by
        rw [hopOut, hopOut, hpool hop (List.mem_reverse.mp hhop)]
    rw [quote, quote, quoteExactOut, quoteExactOut, hwalk]

/-- What a candidate is worth over the pools that were read. -/
def evaluate (viem : Viem env) (factory : Text) (pools : Pools) (side : SwapSide) (amount : Int)
    (c : Candidate) : Option SwapRoute :=
  match usableHops viem factory pools c.path with
  | .ok (some hops) =>
      match quote side hops pools amount with
      | .ok (some q) => some { q with path := c.path, symbols := c.symbols }
      | _ => none
  | _ => none

/-- More is better of what comes out, less of what goes in. -/
def worthOf (side : SwapSide) (r : SwapRoute) : Int :=
  match side with
  | .exactIn => r.amountOut
  | .exactOut => -r.amountIn

theorem better_iff {best : SwapRoute} {q : Quote} {r : SwapRoute} (hr : r.toQuote = q) :
    better side (some best) q = true ↔ worthOf side best < worthOf side r := by
  subst hr
  cases side <;> simp [better, worthOf]

theorem consider_eq {c : Candidate} (h : HopsOf viem factory c.path hops) (best : Option SwapRoute) :
    consider viem factory pools side amount best c =
      .ok ((evaluate viem factory pools side amount c).elim best (Best.step (worthOf side) best)) := by
  rw [consider, evaluate, usableHops_eq h, ok_bind]
  split
  · rename_i hnone
    rw [hnone]
    rfl
  · rename_i usable hsome
    rw [hsome]
    dsimp only
    rcases quote side usable pools amount with e | _ | q
    · rfl
    · rfl
    · rcases best with _ | b
      · rfl
      · dsimp only [Option.elim_some]
        rw [Best.step]
        by_cases hbetter : better side (some b) q = true
        · rw [if_pos hbetter, if_pos ((better_iff rfl).mp hbetter)]
          rfl
        · rw [if_neg hbetter, if_neg fun hlt => hbetter ((better_iff rfl).mpr hlt)]
          rfl

theorem consider_pick (h : ∀ c ∈ cs, ∃ hops, HopsOf viem factory c.path hops) :
    cs.foldlM (consider viem factory pools side amount) none =
      .ok (Best.pick (worthOf side) (cs.filterMap (evaluate viem factory pools side amount))) := by
  have hstep : ∀ c ∈ cs, ∀ best, consider viem factory pools side amount best c =
      .ok ((evaluate viem factory pools side amount c).elim best (Best.step (worthOf side) best)) := by
    intro c hc best
    obtain ⟨hops, hhops⟩ := h c hc
    exact consider_eq hhops best
  rw [foldlM_ok hstep none, Best.pick, List.foldl_filterMap]
  congr 2
  funext best c
  cases evaluate viem factory pools side amount c <;> rfl

theorem evaluate_eq_some {answer : Option (Contract → Result)} {c : Candidate} {r : SwapRoute}
    (h : HopsOf viem factory c.path hops)
    (hpools : ∀ hop ∈ hops, pools (Sdk.toLowerCase hop.pair) =
      livePools answer (Sdk.toLowerCase hop.pair)) :
    evaluate viem factory pools side amount c = some r ↔
      r.path = c.path ∧ r.symbols = c.symbols ∧
        Quoted viem factory answer side amount c.path r.toQuote := by
  have hlive : (∀ hop ∈ hops, (pools (Sdk.toLowerCase hop.pair)).isSome = true) ↔
      ∀ hop ∈ hops, (livePools answer (Sdk.toLowerCase hop.pair)).isSome = true :=
    forall₂_congr fun hop hhop => by rw [hpools hop hhop]
  have hquoted : Quoted viem factory answer side amount c.path r.toQuote ↔
      (∀ hop ∈ hops, (pools (Sdk.toLowerCase hop.pair)).isSome = true) ∧
        quote side hops pools amount = .ok (some r.toQuote) := by
    rw [hlive, quote_congr hpools]
    constructor
    · rintro ⟨hops', hhops', hall, hq⟩
      obtain rfl := h.unique hhops'
      exact ⟨hall, hq⟩
    · rintro ⟨hall, hq⟩
      exact ⟨hops, h, hall, hq⟩
  rw [hquoted, evaluate, usableHops_eq h]
  by_cases hall : ∀ hop ∈ hops, (pools (Sdk.toLowerCase hop.pair)).isSome = true
  · rw [if_pos hall]
    dsimp only
    rcases hq : quote side hops pools amount with e | _ | q
    · simp
    · simp
    · simp only [Option.some.injEq, Except.ok.injEq]
      constructor
      · rintro rfl
        exact ⟨rfl, rfl, hall, rfl⟩
      · rintro ⟨hpath, hsymbols, -, rfl⟩
        rw [← hpath, ← hsymbols]
  · rw [if_neg hall]
    simp [hall]

/-- A quote is of positive amounts. -/
theorem quote_pos {q : Quote} (hamount : 0 < amount)
    (h : quote side hops pools amount = .ok (some q)) : 0 < q.amountIn ∧ 0 < q.amountOut := by
  cases side with
  | exactIn =>
    rw [quote, quoteExactIn, bind_eq_ok] at h
    obtain ⟨⟨y, num, den⟩, -, h⟩ := h
    dsimp only at h
    split at h
    · cases h
    · rename_i hy
      obtain rfl := Option.some.inj (Except.ok.inj h)
      exact ⟨hamount, not_le.mp hy⟩
  | exactOut =>
    rw [quote, quoteExactOut, bind_eq_ok] at h
    obtain ⟨⟨y, num, den⟩, -, h⟩ := h
    dsimp only at h
    split at h
    · cases h
    · rename_i hy
      obtain rfl := Option.some.inj (Except.ok.inj h)
      exact ⟨not_le.mp hy, hamount⟩

end Pools

section Route

variable {env : Env} {wkashAddress : Option Text} {hubs : List Token} {h tokenIn tokenOut : Token}
  {inAddr outAddr x : Text} {path : List Text}

theorem routed_spells (hwkash : ∀ x, wkashAddress = some x → ∃ a, Spells x a) (hh : Keyed h)
    (hx : routedAddress wkashAddress h = some x) : ∃ a, Spells x a := by
  unfold routedAddress at hx
  split at hx
  · exact hwkash x hx
  · rename_i hnative
    rcases hh with hnative' | ⟨y, a, hy, hspells⟩
    · exact (hnative hnative').elim
    · obtain rfl := Option.some.inj (hx.symm.trans hy)
      exact ⟨a, hspells⟩

theorem HubPath.spelled (hwkash : ∀ x, wkashAddress = some x → ∃ a, Spells x a)
    (hhubs : ∀ h ∈ hubs, Keyed h) (hin : ∃ a, Spells inAddr a) (hout : ∃ a, Spells outAddr a)
    (hpath : HubPath wkashAddress hubs inAddr outAddr path) : Spelled path := by
  obtain ⟨mids, rfl, -, hmids, hnodup⟩ := hpath
  refine ⟨fun x hx => ?_, hnodup⟩
  rcases List.mem_cons.mp hx with rfl | hx
  · exact hin
  · rcases List.mem_append.mp hx with hx | hx
    · obtain ⟨h, hh, hrouted⟩ := hmids x hx
      exact routed_spells hwkash (hhubs h hh) hrouted
    · rw [List.mem_singleton.mp hx]
      exact hout

theorem candidates_ok (hhubs : ∀ h ∈ hubs, Keyed h) (hin : Keyed tokenIn) (hout : Keyed tokenOut)
    (hinAddr : routedAddress wkashAddress tokenIn = some inAddr)
    (houtAddr : routedAddress wkashAddress tokenOut = some outAddr)
    (hne : Sdk.toLowerCase inAddr ≠ Sdk.toLowerCase outAddr) :
    ∃ cs, candidates wkashAddress hubs tokenIn tokenOut = .ok cs ∧
      ∀ path, (∃ c ∈ cs, c.path = path) ↔ HubPath wkashAddress hubs inAddr outAddr path := by
  obtain ⟨hs, hrun, hmem⟩ := usableHubs_ok hhubs hin hout hinAddr houtAddr
  refine ⟨candidatesFrom hs inAddr outAddr tokenIn.symbol tokenOut.symbol, ?_, fun path => ?_⟩
  · rw [candidates, hrun, ok_bind, hinAddr, houtAddr]
    rfl
  rw [mem_candidatesFrom hne fun h hh => ((hmem h.addr).mp ⟨h, hh, rfl⟩).2]
  refine exists_congr fun mids => ?_
  constructor
  · rintro ⟨hpath, hlength, hmids, hnodup⟩
    exact ⟨hpath, hlength, fun m hm => ((hmem m).mp (hmids m hm)).1, hnodup⟩
  · rintro ⟨rfl, hlength, hmids, hnodup⟩
    refine ⟨rfl, hlength, fun m hm => (hmem m).mpr ⟨hmids m hm, fun hsame => ?_, fun hsame => ?_⟩,
      hnodup⟩
    · have hmem := List.mem_map_of_mem (f := Sdk.toLowerCase) (List.mem_append_left [outAddr] hm)
      rw [hsame] at hmem
      exact (List.nodup_cons.mp hnodup).1 hmem
    · have hrest := (List.nodup_cons.mp hnodup).2
      rw [List.map_append] at hrest
      have hmem := List.mem_map_of_mem (f := Sdk.toLowerCase) hm
      rw [hsame] at hmem
      exact (List.disjoint_of_nodup_append hrest) hmem (List.mem_singleton_self _)

/-- The form offers the best of all simple paths through at most two hubs that can
be traded along, and offers one exactly when there is one. -/
theorem useSwapRoute_best (viem : Viem env) {factory : Text} (hf : Spells factory env.factory)
    (hwkash : ∀ x, wkashAddress = some x → ∃ a, Spells x a) (hhubs : ∀ h ∈ hubs, Keyed h)
    (hin : Keyed tokenIn) (hout : Keyed tokenOut)
    (hinAddr : routedAddress wkashAddress tokenIn = some inAddr)
    (houtAddr : routedAddress wkashAddress tokenOut = some outAddr)
    (hne : Sdk.toLowerCase inAddr ≠ Sdk.toLowerCase outAddr) (answer : Option (Contract → Result))
    {amount : Int} (hamount : 0 < amount) (side : SwapSide) :
    (∃ cs, candidates wkashAddress hubs tokenIn tokenOut = .ok cs ∧
      ∀ path, (∃ c ∈ cs, c.path = path) ↔ HubPath wkashAddress hubs inAddr outAddr path) ∧
    ∃ best, useSwapRoute viem wkashAddress (some factory) hubs tokenIn tokenOut (some amount) side
        answer = .ok best ∧
      (best.isSome = true ↔ ∃ path q, HubPath wkashAddress hubs inAddr outAddr path ∧
        Quoted viem factory answer side amount path q) ∧
      ∀ route, best = some route → HubPath wkashAddress hubs inAddr outAddr route.path ∧
        Quoted viem factory answer side amount route.path route.toQuote ∧
        (0 < route.amountIn ∧ 0 < route.amountOut) ∧
        ∀ path q, HubPath wkashAddress hubs inAddr outAddr path →
          Quoted viem factory answer side amount path q →
          (side = .exactIn → q.amountOut ≤ route.amountOut) ∧
            (side = .exactOut → route.amountIn ≤ q.amountIn) := by
  obtain ⟨cs, hcs, hpaths⟩ := candidates_ok hhubs hin hout hinAddr houtAddr hne
  have hhub : ∀ c ∈ cs, HubPath wkashAddress hubs inAddr outAddr c.path :=
    fun c hc => (hpaths c.path).mp ⟨c, hc, rfl⟩
  have hspelled : ∀ c ∈ cs, Spelled c.path := fun c hc => (hhub c hc).spelled hwkash hhubs
    (routed_spells hwkash hin hinAddr) (routed_spells hwkash hout houtAddr)
  have hhops : ∀ c ∈ cs, ∃ hops, HopsOf viem factory c.path hops := by
    intro c hc
    have hpath := hspelled c hc
    obtain ⟨mids, hmids, -⟩ := hhub c hc
    rw [hmids] at hpath ⊢
    exact exists_hops viem hf hpath
  obtain ⟨keys, hkeys, hlow, hall⟩ := pairAddrs_ok viem hf hspelled
  have hroute : ∀ c ∈ cs, ∀ r, evaluate viem factory
      (readPools keys (answer.map fun answer => (contracts keys).map answer)) side amount c = some r ↔
        r.path = c.path ∧ r.symbols = c.symbols ∧
          Quoted viem factory answer side amount c.path r.toQuote := by
    intro c hc r
    obtain ⟨hops, hops_of⟩ := hhops c hc
    exact evaluate_eq_some hops_of fun hop hhop => readPools_eq hlow (hall c hc hops hops_of hop hhop)
  have hrun : useSwapRoute viem wkashAddress (some factory) hubs tokenIn tokenOut (some amount) side
      answer = .ok (Best.pick (worthOf side) (cs.filterMap (evaluate viem factory
        (readPools keys (answer.map fun answer => (contracts keys).map answer)) side amount))) := by
    rw [useSwapRoute, hcs, ok_bind]
    dsimp only
    rw [hkeys, ok_bind]
    rw [if_pos hamount, consider_pick hhops]
  refine ⟨⟨cs, hcs, hpaths⟩, _, hrun, ?_, ?_⟩
  · constructor
    · intro hsome
      obtain ⟨r, hr⟩ := Option.isSome_iff_exists.mp hsome
      obtain ⟨c, hc, heval⟩ := List.mem_filterMap.mp (Best.pick_isFirstBest hr).mem
      exact ⟨c.path, r.toQuote, hhub c hc, ((hroute c hc r).mp heval).2.2⟩
    · rintro ⟨path, q, hpath, hq⟩
      obtain ⟨c, hc, rfl⟩ := (hpaths path).mpr hpath
      have heval := (hroute c hc { q with path := c.path, symbols := c.symbols }).mpr ⟨rfl, rfl, hq⟩
      obtain ⟨r, hr⟩ := Best.exists_pick (worthOf side)
        (List.mem_filterMap.mpr ⟨c, hc, heval⟩)
      rw [hr]
      rfl
  · intro route hr
    have hbest := Best.pick_isFirstBest hr
    obtain ⟨c, hc, heval⟩ := List.mem_filterMap.mp hbest.mem
    obtain ⟨hpath, -, hquoted⟩ := (hroute c hc route).mp heval
    rw [hpath]
    refine ⟨hhub c hc, hquoted, ?_, fun path q hpath' hq => ?_⟩
    · obtain ⟨hops, -, -, hquote⟩ := hquoted
      exact quote_pos hamount hquote
    · obtain ⟨c', hc', rfl⟩ := (hpaths path).mpr hpath'
      have heval' := (hroute c' hc' { q with path := c'.path, symbols := c'.symbols }).mpr ⟨rfl, rfl, hq⟩
      have hle := hbest.le (List.mem_filterMap.mpr ⟨c', hc', heval'⟩)
      constructor
      · rintro rfl
        exact hle
      · rintro rfl
        exact neg_le_neg_iff.mp hle

end Route

def nativeKash : Token := { symbol := "KASH".toList, address := none, isNative := true, isImported := false }

def listedHub (symbol : String) (a : Address) : Token :=
  { symbol := symbol.toList, address := some (hexText 40 a.val), isNative := false, isImported := false }

/-- Every pair has been created and holds the same reserves. -/
def evenPools (c : Contract) : Result :=
  if c.functionName = .getReserves then .reserves 1000 2000 else .address (hexText 40 5)

theorem listedHubs_best : ∃ best, useSwapRoute (checksummed codedEnv) (some (hexText 40 6))
      (some (hexText 40 1)) [listedHub "WKASH" 6, listedHub "mUSDC" 7] nativeKash
      (listedHub "mLINK" 5) (some 100) .exactIn (some evenPools) = .ok best ∧
    (best.isSome = true ↔ ∃ path q, HubPath (some (hexText 40 6))
      [listedHub "WKASH" 6, listedHub "mUSDC" 7] (hexText 40 6) (hexText 40 5) path ∧
      Quoted (checksummed codedEnv) (hexText 40 1) (some evenPools) .exactIn 100 path q) := by
  have hlisted : ∀ (symbol : String) (a : Address), Keyed (listedHub symbol a) :=
    fun _ a => Or.inr ⟨_, a, rfl, spells_hexText a⟩
  have hhubs : ∀ h ∈ [listedHub "WKASH" 6, listedHub "mUSDC" 7], Keyed h := by
    intro h hh
    rcases List.mem_cons.mp hh with rfl | hh
    · exact hlisted _ _
    · rw [List.mem_singleton.mp hh]
      exact hlisted _ _
  have hwkash : ∀ x, some (hexText 40 6) = some x → ∃ a, Spells x a := by
    intro x hx
    rw [← Option.some.inj hx]
    exact ⟨6, spells_hexText 6⟩
  have hin : Keyed nativeKash := Or.inl rfl
  have hinAddr : routedAddress (some (hexText 40 6)) nativeKash = some (hexText 40 6) := rfl
  have houtAddr : routedAddress (some (hexText 40 6)) (listedHub "mLINK" 5) = some (hexText 40 5) := rfl
  obtain ⟨-, best, hrun, hsome, -⟩ := useSwapRoute_best (checksummed codedEnv) (spells_hexText 1)
    hwkash hhubs hin (hlisted "mLINK" 5) hinAddr houtAddr (by decide +kernel) (some evenPools)
    (by decide : (0 : Int) < 100) .exactIn
  exact ⟨best, hrun, hsome⟩

end UseSwapRoute

end ArkSwap
