import ArkSwap.ExchangeLogs

/-! The exchange is in order after any transactions, and while the protocol takes no fee no
share of any pair ever loses worth. -/

namespace ArkSwap

open Checked ArkSwapPair

namespace Exchange

variable {env : Env} {fees : Prop} {absent busy busy' : Set Address} {w w' w'' : World}
variable {a b pair tokenA tokenB : Address} {p q : ArkSwapPair}

theorem registry_congr (hr : FactoryCall.Registry w)
    (hget : w'.factory.getPair = w.factory.getPair) (hall : w'.factory.allPairs = w.factory.allPairs)
    (hp : ∀ a p, w.pair a = some p →
      ∃ q, w'.pair a = some q ∧ q.token0 = p.token0 ∧ q.token1 = p.token1) :
    FactoryCall.Registry w' where
  symmetric := by rw [hget]; exact hr.symmetric
  listed c d := by
    rw [hget, hall, hr.listed]
    refine exists_congr fun r => and_congr_right fun hr' => ?_
    obtain ⟨p, hpr, -⟩ := hr.entry r hr'
    obtain ⟨q, hq, h₀, h₁⟩ := hp r p hpr
    simp only [FactoryCall.CreatedFor, hpr, hq, Option.some.injEq, exists_eq_left', h₀, h₁]
  nodup := by rw [hall]; exact hr.nodup
  entry r hr' := by
    rw [hall] at hr'
    obtain ⟨p, hpr, hlt, h0, hget'⟩ := hr.entry r hr'
    obtain ⟨q, hq, h₀, h₁⟩ := hp r p hpr
    rw [← h₀, ← h₁] at hget'
    rw [← h₀] at h0
    rw [← h₀, ← h₁] at hlt
    exact ⟨q, hq, hlt, h0, by rw [hget, hget']⟩

theorem Placed.congr (h : Placed env w a p) (hall : w.factory.allPairs <+: w'.factory.allPairs)
    (h₀ : q.token0 = p.token0) (h₁ : q.token1 = p.token1) : Placed env w' a q where
  nonzero := h.nonzero
  address := by rw [h₀, h₁]; exact h.address
  sorted := by rw [h₀, h₁]; exact h.sorted
  listed := hall.subset h.listed

theorem Placed.deployed (hs : Grounds env) (h : Placed env w a p) :
    Deployed env a p.token0 p.token1 where
  pool_ne := h.nonzero
  tokens_ne := h.sorted.ne
  token0_ne hne := (hs.apart p.token0 p.token1).1 (h.address.symm.trans hne.symm)
  token1_ne hne := (hs.apart p.token0 p.token1).2 (h.address.symm.trans hne.symm)
  standard0 := hs.standard _
  standard1 := hs.standard _

theorem sound_beside (hs : Grounds env) (hplaced : Placed env w a p)
    (h : Sound a p.token0 p.token1 w p) (hb : Beside a w w') : Sound a p.token0 p.token1 w' p :=
  h.beside (hplaced.deployed hs).token0_ne (hplaced.deployed hs).token1_ne hb

theorem Ordered.outside (hs : Grounds env) (h : Ordered env busy w) (ho : Outside env fees w w') :
    Ordered env busy w' where
  conserved t := ho.conserved t (h.conserved t)
  unapproved := ho.unapproved
  vacant a ha hnone := by
    rw [(ho.beside a ha).supply]
    exact h.vacant a ha (ho.pair ▸ hnone)
  registry := registry_congr h.registry ho.getPair ho.allPairs fun a p hp =>
    ⟨p, ho.pair ▸ hp, rfl, rfl⟩
  placed a p hp := (h.placed a p (ho.pair ▸ hp)).congr (ho.allPairs ▸ List.prefix_rfl) rfl rfl
  sound a p hp hb := by
    have hplaced := h.placed a p (ho.pair ▸ hp)
    exact sound_beside hs hplaced (h.sound a p (ho.pair ▸ hp) hb) (ho.beside a hplaced.pooled)
  locked a hb := ho.pair ▸ h.locked a hb
  backed := ho.backed h.backed

/-- A call of one pair, which may enter or leave a swap. -/
theorem Ordered.inside (hs : Grounds env) (h : Ordered env busy w) (hi : Inside b w w')
    (hp : w.pair b = some p) (hq : w'.pair b = some q) (h₀ : q.token0 = p.token0)
    (h₁ : q.token1 = p.token1) (hbusy : ∀ a, a ≠ b → (a ∈ busy' ↔ a ∈ busy))
    (hsound : b ∉ busy' → Sound b q.token0 q.token1 w' q) (hlocked : b ∈ busy' → q.unlocked = 0) :
    Ordered env busy' w' where
  conserved t := by
    obtain ⟨a, ha⟩ := exists_ne b
    exact (hi.beside a ha).conserved t (h.conserved t)
  unapproved t o s ho := by
    rw [hi.allowance]
    exact h.unapproved t o s ho
  vacant a ha hnone := by
    have hab : a ≠ b := by
      rintro rfl
      cases hnone.symm.trans hq
    rw [hi.supply a hab]
    exact h.vacant a ha (hi.pair a hab ▸ hnone)
  registry := by
    refine registry_congr h.registry (by rw [hi.factory]) (by rw [hi.factory]) fun a p' hp' => ?_
    by_cases hab : a = b
    · subst hab
      obtain rfl := Option.some.inj (hp.symm.trans hp')
      exact ⟨q, hq, h₀, h₁⟩
    · exact ⟨p', (hi.pair a hab).trans hp', rfl, rfl⟩
  placed a p' hp' := by
    have hall : w.factory.allPairs <+: w'.factory.allPairs := by rw [hi.factory]
    by_cases hab : a = b
    · subst hab
      obtain rfl := Option.some.inj (hq.symm.trans hp')
      exact (h.placed a p hp).congr hall h₀ h₁
    · exact (h.placed a p' ((hi.pair a hab).symm.trans hp')).congr hall rfl rfl
  sound a p' hp' hb := by
    by_cases hab : a = b
    · subst hab
      obtain rfl := Option.some.inj (hq.symm.trans hp')
      exact hsound hb
    · have hp := (hi.pair a hab).symm.trans hp'
      have hold := h.sound a p' hp fun hin => hb ((hbusy a hab).mpr hin)
      exact sound_beside hs (h.placed a p' hp) hold (hi.beside a hab)
  locked a hb := by
    by_cases hab : a = b
    · subst hab
      exact ⟨q, hq, hlocked hb⟩
    · rw [hi.pair a hab]
      exact h.locked a ((hbusy a hab).mp hb)
  backed := by
    have hne : env.WETH ≠ b := fun hw => hs.WETH_free (hw ▸ (h.placed b p hp).pooled)
    rw [hi.supply _ hne, hi.native]
    exact h.backed

/-- What `createPair` writes. -/
theorem createPair_deploys (h : ArkSwapFactory.createPair env w tokenA tokenB = .ok (pair, w')) :
    ∃ token0 token1, token0 < token1 ∧ pair ≠ 0 ∧
      pair = create2 env (pairSalt env token0 token1) env.pairCodeHash ∧ w.pair pair = none ∧
      w'.pair = Function.update w.pair pair (some (.initial token0 token1)) ∧
      w'.token = Function.update w.token pair .initial ∧ w'.native = w.native ∧
      w'.factory.feeTo = w.factory.feeTo ∧
      w'.factory.allPairs = w.factory.allPairs ++ [pair] ∧
      w'.logs = w.logs ++ [.pairCreated token0 token1 pair w'.factory.allPairs.length] := by
  rw [ArkSwapFactory.createPair, sorted_eq] at h
  simp only [bind_eq_ok, require_eq_ok, pure_eq_ok, Except.ok.injEq, Prod.mk.injEq] at h
  obtain ⟨-, hne, -, -, -, -, -, ⟨hnone, hpair, -⟩, rfl, rfl⟩ := h
  exact ⟨_, _, min_lt_max.mpr hne, hpair, rfl, hnone, rfl, rfl, rfl, rfl, rfl, rfl⟩

/-- Nobody holds shares of a pair that has not been deployed. -/
theorem createPair_beside (h : Ordered env busy w) (hpooled : Pooled env pair)
    (hnone : w.pair pair = none) (hpair : ∀ a, a ≠ pair → w'.pair a = w.pair a)
    (htok : w'.token = Function.update w.token pair .initial) (ha : a ≠ pair) :
    Beside a w w' := by
  have hempty : (w.token pair).balanceOf a = 0 := by
    have hle := Ledger.le_sum (w.token pair).balanceOf a
    rw [(h.conserved pair).1, h.vacant pair hpooled hnone] at hle
    exact Nat.le_zero.mp hle
  have hset : Beside a w (w.setToken pair .initial) :=
    Beside.setAsset ha.symm (by rw [hempty]; exact Nat.zero_le _) fun _ =>
      ArkSwapERC20.initial_conserved
  exact hset.trans (Beside.of_eq (hpair a ha) htok)

theorem Ordered.createPair (hs : Grounds env) (h : Ordered env busy w)
    (hc : ArkSwapFactory.createPair env w tokenA tokenB = .ok (pair, w')) :
    Ordered env busy w' ∧ w.pair pair = none ∧ ∀ a, a ≠ pair → Beside a w w' := by
  obtain ⟨token0, token1, hlt, hpair0, haddr, hnone, hpairs, htok, hnative, -, hall, -⟩ :=
    createPair_deploys hc
  have hpooled : Pooled env pair := ⟨_, _, haddr⟩
  have hother : ∀ a, a ≠ pair → w'.pair a = w.pair a := pair_of_update hpairs
  have hnew : w'.pair pair = some (.initial token0 token1) := by rw [hpairs, Function.update_self]
  have hledger : w'.token pair = .initial := by rw [htok, Function.update_self]
  have htoken : ∀ t, t ≠ pair → w'.token t = w.token t := fun t ht => by
    rw [htok, Function.update_of_ne ht]
  have hcons : ∀ t, (w'.token t).Conserved := by
    intro t
    by_cases ht : t = pair
    · subst ht
      rw [hledger]
      exact ArkSwapERC20.initial_conserved
    · rw [htoken t ht]
      exact h.conserved t
  have hbeside := fun a => createPair_beside (a := a) h hpooled hnone hother htok
  have hold : ∀ a p, w.pair a = some p → a ≠ pair := by
    rintro a p hp rfl
    cases hnone.symm.trans hp
  have hplaced : Placed env w' pair (.initial token0 token1) :=
    ⟨hpair0, haddr, hlt, by rw [hall]; exact List.mem_append_right _ List.mem_cons_self⟩
  have hfresh : Fresh pair token0 token1 w' := ⟨hnew, hledger, hcons _, hcons _⟩
  obtain ⟨p', hsound⟩ := hfresh.sound (hplaced.deployed hs)
  obtain rfl := Option.some.inj (hnew.symm.trans hsound.pair)
  refine ⟨⟨hcons, fun t o s ho => ?_, fun a ha hnone' => ?_, (h.registry.createPair hc).1,
    fun a p hp => ?_, fun a p hp hb => ?_, fun a hb => ?_, ?_⟩, hnone, hbeside⟩
  · by_cases ht : t = pair
    · subst ht
      rw [hledger]
      rfl
    · rw [htoken t ht]
      exact h.unapproved t o s ho
  · have hne : a ≠ pair := by
      rintro rfl
      cases hnone'.symm.trans hnew
    rw [htoken a hne]
    exact h.vacant a ha (hother a hne ▸ hnone')
  · by_cases hap : a = pair
    · subst hap
      obtain rfl := Option.some.inj (hnew.symm.trans hp)
      exact hplaced
    · exact (h.placed a p ((hother a hap).symm.trans hp)).congr (hall ▸ List.prefix_append _ _)
        rfl rfl
  · by_cases hap : a = pair
    · subst hap
      obtain rfl := Option.some.inj (hnew.symm.trans hp)
      exact hsound
    · have hp := (hother a hap).symm.trans hp
      exact sound_beside hs (h.placed a p hp) (h.sound a p hp hb) (hbeside a hap)
  · obtain ⟨p, hp, hu⟩ := h.locked a hb
    exact ⟨p, (hother a (hold a p hp)).trans hp, hu⟩
  · have hne : env.WETH ≠ pair := fun hw => hs.WETH_free (hw ▸ hpooled)
    rw [htoken _ hne, hnative]
    exact h.backed

/-- What becomes of a pair: it trades the same tokens, its shares do not run out and, while
the protocol takes no fee, each of them is worth no less than before. -/
structure Carried (fees : Prop) (a : Address) (w w' : World) (p q : ArkSwapPair) : Prop where
  token0 : q.token0 = p.token0
  token1 : q.token1 = p.token1
  minted : 0 < (w.token a).totalSupply → 0 < (w'.token a).totalSupply
  worth : ¬fees → w.factory.feeTo = 0 → 0 < (w.token a).totalSupply →
    Shares.Keeps (p.reserve0 * p.reserve1) (w.token a).totalSupply
      (q.reserve0 * q.reserve1) (w'.token a).totalSupply

structure Keeps (env : Env) (fees : Prop) (busy : Set Address) (w w' : World) : Prop where
  ordered : Ordered env busy w'
  feeTo : ¬fees → w'.factory.feeTo = w.factory.feeTo
  carried : ∀ a p, w.pair a = some p → ∃ q, w'.pair a = some q ∧ Carried fees a w w' p q
  beside : ∀ a ∈ busy, Beside a w w'
  logged : Logged w w'

theorem Carried.of_beside (hb : Beside a w w') (hp : w.pair a = some p) :
    ∃ q, w'.pair a = some q ∧ Carried fees a w w' p q :=
  ⟨p, hb.pair.trans hp, rfl, rfl, fun h => hb.supply.symm ▸ h, fun _ _ _ => by
    rw [hb.supply]
    exact Shares.Keeps.refl _ _⟩

theorem Carried.trans {r : ArkSwapPair} (h : Carried fees a w w' p q)
    (hf : ¬fees → w'.factory.feeTo = w.factory.feeTo) (h' : Carried fees a w' w'' q r) :
    Carried fees a w w'' p r where
  token0 := h'.token0.trans h.token0
  token1 := h'.token1.trans h.token1
  minted hS := h'.minted (h.minted hS)
  worth hn h0 hS := by
    have hS' := h.minted hS
    exact (h.worth hn h0 hS).trans hS' (h'.worth hn ((hf hn).trans h0) hS')

theorem Keeps.refl (h : Ordered env busy w) : Keeps env fees busy w w where
  ordered := h
  feeTo _ := rfl
  carried a _ hp := Carried.of_beside (Beside.refl a w) hp
  beside a _ := Beside.refl a w
  logged := .refl w

theorem Keeps.trans (h : Keeps env fees busy w w') (h' : Keeps env fees busy w' w'') :
    Keeps env fees busy w w'' where
  ordered := h'.ordered
  feeTo hf := (h'.feeTo hf).trans (h.feeTo hf)
  carried a p hp := by
    obtain ⟨q, hq, hc⟩ := h.carried a p hp
    obtain ⟨r, hr, hc'⟩ := h'.carried a q hq
    exact ⟨r, hr, hc.trans h.feeTo hc'⟩
  beside a ha := (h.beside a ha).trans (h'.beside a ha)
  logged := h.logged.trans h'.logged

theorem Ordered.busy_pooled (h : Ordered env busy w) (ha : a ∈ busy) : Pooled env a := by
  obtain ⟨p, hp, -⟩ := h.locked a ha
  exact (h.placed a p hp).pooled

theorem Keeps.of_outside (hs : Grounds env) (h : Ordered env busy w) (ho : Outside env fees w w') :
    Keeps env fees busy w w' where
  ordered := h.outside hs ho
  feeTo := ho.feeTo
  carried a p hp := Carried.of_beside (ho.beside a (h.placed a p hp).pooled) hp
  beside a ha := ho.beside a (h.busy_pooled ha)
  logged := .quiet ho.logs (fun _ => by rw [ho.pair]) ho.allPairs

theorem Keeps.createPair (hs : Grounds env) (h : Ordered env busy w)
    (hc : ArkSwapFactory.createPair env w tokenA tokenB = .ok (pair, w')) :
    Keeps env fees busy w w' := by
  obtain ⟨hordered, hnone, hbeside⟩ := h.createPair hs hc
  obtain ⟨_, _, -, -, -, -, hpairs, -, -, hfeeTo, hall, hlogs⟩ := createPair_deploys hc
  have hold : ∀ a p, w.pair a = some p → a ≠ pair := by
    rintro a p hp rfl
    cases hnone.symm.trans hp
  refine ⟨hordered, fun _ => hfeeTo, fun a p hp => ?_, fun a ha => ?_,
    ⟨hlogs ▸ List.prefix_append _ _, fun hm => hm.created hpairs hall hlogs⟩⟩
  · exact Carried.of_beside (hbeside a (hold a p hp)) hp
  · obtain ⟨p, hp, -⟩ := h.locked a ha
    exact hbeside a (hold a p hp)

/-- A pair that lets a call in is not inside of a swap. -/
theorem Ordered.free (h : Ordered env busy w) {α : Type} {x : α}
    {body : World → Except String (α × World)} (hl : lock w b body = .ok (x, w')) :
    b ∉ busy ∧ ∃ p, w.pair b = some p ∧ Placed env w b p ∧ Sound b p.token0 p.token1 w p := by
  obtain ⟨p, -, -, hp, hu, -⟩ := lock_eq_ok.mp hl
  have hb : b ∉ busy := by
    intro hb
    obtain ⟨p', hp', hu'⟩ := h.locked b hb
    obtain rfl := Option.some.inj (hp.symm.trans hp')
    omega
  exact ⟨hb, p, hp, h.placed b p hp, h.sound b p hp hb⟩

/-- A call of one pair that ends outside of its lock. -/
theorem Keeps.of_inside (hs : Grounds env) (h : Ordered env busy w) (hb : b ∉ busy)
    (hp : w.pair b = some p) (hi : Inside b w w') (hq : Sound b p.token0 p.token1 w' q)
    (hminted : 0 < (w.token b).totalSupply → 0 < (w'.token b).totalSupply)
    (hworth : w.factory.feeTo = 0 → 0 < (w.token b).totalSupply →
      Shares.Keeps (p.reserve0 * p.reserve1) (w.token b).totalSupply
        (q.reserve0 * q.reserve1) (w'.token b).totalSupply)
    (hlogged : Logged w w') : Keeps env fees busy w w' where
  ordered := by
    refine h.inside hs hi hp hq.pair hq.token0 hq.token1 (fun _ _ => Iff.rfl) (fun _ => ?_)
      fun hin => (hb hin).elim
    rwa [hq.token0, hq.token1]
  feeTo _ := by rw [hi.factory]
  carried a p' hp' := by
    by_cases hab : a = b
    · subst hab
      obtain rfl := Option.some.inj (hp.symm.trans hp')
      exact ⟨q, hq.pair, hq.token0, hq.token1, hminted, fun _ => hworth⟩
    · exact Carried.of_beside (hi.beside a hab) hp'
  beside a ha := hi.beside a fun hab => hb (hab ▸ ha)
  logged := hlogged

theorem feeLedger_off (w : World) (a : Address) (p : ArkSwapPair) (h : w.factory.feeTo = 0) :
    (feeLedger w a p).totalSupply = (w.token a).totalSupply := by
  simp [feeLedger, h]

variable {sender dst : Address}

theorem Keeps.mint (hs : Grounds env) (h : Ordered env busy w) {liquidity : Nat}
    (hm : ArkSwapPair.mint w b sender dst = .ok (liquidity, w')) : Keeps env fees busy w w' := by
  obtain ⟨hb, p, hp, hplaced, hsound⟩ := h.free hm
  obtain ⟨q, hq, hne, hv⟩ := hsound.mint (hplaced.deployed hs) hm
  obtain ⟨q', _, _, hq', hr⟩ := mint_reports hm
  obtain rfl := Option.some.inj (hq.pair.symm.trans hq')
  have hi := mint_inside hsound hm
  refine .of_inside hs h hb hp hi hq (fun _ => Nat.pos_of_ne_zero hne) (fun h0 hS => ?_)
    (.synced hp hq.pair hi hq.token0 hq.token1 hr (by simp [Event.mint_inert]))
  rw [feeLedger_off w b p h0] at hv
  obtain ⟨hv₀, hv₁⟩ := hv hS.ne'
  exact Shares.Keeps.of_each hv₀ hv₁

theorem Keeps.burn (hs : Grounds env) (h : Ordered env busy w) {amounts : Nat × Nat}
    (hm : ArkSwapPair.burn env w b sender dst = .ok (amounts, w')) : Keeps env fees busy w w' := by
  obtain ⟨hb, p, hp, hplaced, hsound⟩ := h.free hm
  have hd := hplaced.deployed hs
  obtain ⟨q, hq, hne, hv₀, hv₁⟩ := hsound.burn hd hm
  obtain ⟨q', hq', hr⟩ := burn_reports hm
  obtain rfl := Option.some.inj (hq.pair.symm.trans hq')
  have hi := burn_inside hd hsound hm
  refine .of_inside hs h hb hp hi hq (fun _ => Nat.pos_of_ne_zero hne) (fun h0 hS => ?_)
    (.synced hp hq.pair hi hq.token0 hq.token1 hr (by simp [Event.burn_inert]))
  rw [feeLedger_off w b p h0] at hv₀ hv₁
  exact Shares.Keeps.of_each hv₀ hv₁

theorem Keeps.skim (hs : Grounds env) (h : Ordered env busy w)
    (hm : ArkSwapPair.skim env w b dst = .ok ((), w')) : Keeps env fees busy w w' := by
  obtain ⟨hb, p, hp, hplaced, hsound⟩ := h.free hm
  have hd := hplaced.deployed hs
  obtain ⟨hq, hsame⟩ := hsound.skim hd hm
  have hi := skim_inside hd hsound hm
  refine .of_inside hs h hb hp hi hq (fun hS => by rwa [hsame]) (fun _ _ => ?_) ?_
  · rw [hsame]
    exact Shares.Keeps.refl _ _
  · have hlogs : w'.logs = w.logs := (skim_reports hm).logs.trans (List.append_nil _)
    refine .quiet hlogs (fun a => ?_) (by rw [hi.factory])
    by_cases hab : a = b
    · rw [hab, hq.pair, hp]
    · rw [hi.pair a hab]

theorem Keeps.sync (hs : Grounds env) (h : Ordered env busy w)
    (hm : ArkSwapPair.sync w b = .ok ((), w')) : Keeps env fees busy w w' := by
  obtain ⟨hb, p, hp, hplaced, hsound⟩ := h.free hm
  obtain ⟨q, hq, hsame, h₀, h₁⟩ := hsound.sync hm
  obtain ⟨q', hq', hr⟩ := sync_reports hm
  obtain rfl := Option.some.inj (hq.pair.symm.trans hq')
  have hi := sync_inside hsound hm
  refine .of_inside hs h hb hp hi hq (fun hS => by rwa [hsame]) (fun _ _ => ?_)
    (.synced hp hq.pair hi hq.token0 hq.token1 hr (by simp))
  rw [hsame]
  exact Shares.Keeps.of_le (Nat.mul_le_mul h₀ h₁) _

/-- What the callback of a swap finds is in order but for the pair itself. -/
theorem Ordered.lend (hs : Grounds env) (h : Ordered env busy w) (hp : w.pair b = some p)
    {amount0Out amount1Out : Nat} (hlend : Inside b w (lent w b dst p amount0Out amount1Out)) :
    Ordered env (insert b busy) (lent w b dst p amount0Out amount1Out) :=
  h.inside hs hlend hp (lent_pair ..) rfl rfl (fun a hab => by simp [hab])
    (fun hnot => (hnot (Set.mem_insert b busy)).elim) fun _ => rfl

/-- While its callback runs a pair is busy: the callback cannot touch it, whatever it does to
all others. -/
theorem Keeps.swap (hs : Grounds env) (h : Ordered env busy w) {amount0Out amount1Out : Nat}
    {data : Option (World → Except String World)}
    (hback : ∀ arkSwapCall, data = some arkSwapCall → ∀ u v, arkSwapCall u = .ok v →
      ∀ busy, Ordered env busy u → Keeps env fees busy u v)
    (hm : ArkSwapPair.swap env w b sender amount0Out amount1Out dst data = .ok ((), w')) :
    Keeps env fees busy w w' := by
  obtain ⟨hb, p, hp, hplaced, hsound⟩ := h.free hm
  have hd := hplaced.deployed hs
  obtain ⟨hlend, w₁, q', _, _, hcall, hsettle, hq', hr⟩ := swap_inside hd hsound hm
  have hin := h.lend hs hp hlend
  have hrun : ∀ w₂, callback data (lent w b dst p amount0Out amount1Out) = .ok w₂ →
      Keeps env fees (insert b busy) (lent w b dst p amount0Out amount1Out) w₂ := by
    intro w₂ hcall
    cases data with
    | none =>
      obtain rfl := Except.ok.inj hcall
      exact .refl hin
    | some arkSwapCall => exact hback arkSwapCall rfl _ w₂ hcall _ hin
  obtain ⟨q, hq, hsupply, hk⟩ := hsound.swap_beside hd
    (fun w₂ hw₂ => (hrun w₂ hw₂).beside b (Set.mem_insert b busy)) hm
  have hkeeps := hrun w₁ hcall
  have hp₁ := (hkeeps.beside b (Set.mem_insert b busy)).pair.trans (lent_pair ..)
  obtain rfl := Option.some.inj (hq.pair.symm.trans hq')
  refine ⟨?_, fun hf => ?_, fun a p' hp' => ?_, fun a ha => ?_, ?_⟩
  · refine hkeeps.ordered.inside hs hsettle hp₁ hq.pair hq.token0 hq.token1
      (fun a hab => by simp [hab]) (fun _ => ?_) fun hin => (hb hin).elim
    rwa [hq.token0, hq.token1]
  · rw [hsettle.factory, hkeeps.feeTo hf, hlend.factory]
  · by_cases hab : a = b
    · subst hab
      obtain rfl := Option.some.inj (hp.symm.trans hp')
      refine ⟨q, hq.pair, hq.token0, hq.token1, fun hS => by rwa [hsupply], fun _ _ _ => ?_⟩
      rw [hsupply]
      exact Shares.Keeps.of_le hk _
    · obtain ⟨q₁, hq₁, hc₁⟩ : ∃ q, (lent w b dst p amount0Out amount1Out).pair a = some q ∧
          Carried fees a w (lent w b dst p amount0Out amount1Out) p' q :=
        Carried.of_beside (hlend.beside a hab) hp'
      obtain ⟨q₂, hq₂, hc₂⟩ := hkeeps.carried a q₁ hq₁
      obtain ⟨q₃, hq₃, hc₃⟩ : ∃ q, w'.pair a = some q ∧ Carried fees a w₁ w' q₂ q :=
        Carried.of_beside (hsettle.beside a hab) hq₂
      refine ⟨q₃, hq₃, (hc₁.trans (fun _ => ?_) hc₂).trans (fun hf => ?_) hc₃⟩
      · rw [hlend.factory]
      · rw [hkeeps.feeTo hf, hlend.factory]
  · have hab : a ≠ b := fun hab => hb (hab ▸ ha)
    exact ((hlend.beside a hab).trans (hkeeps.beside a (Set.mem_insert_of_mem b ha))).trans
      (hsettle.beside a hab)
  · have hlent : Logged w (lent w b dst p amount0Out amount1Out) := by
      refine .quiet rfl (fun a => ?_) (by rw [hlend.factory])
      by_cases hab : a = b
      · rw [hab, lent_pair, hp]
        rfl
      · rw [hlend.pair a hab]
    exact (hlent.trans hkeeps.logged).trans
      (.synced hp₁ hq.pair hsettle hq.token0 hq.token1 hr (by simp [Event.swap_inert]))

/-- Whatever calls do, nested in whatever way, they leave the exchange in order and do
nothing to the pairs whose callbacks they run in. -/
theorem keeps_of_reach (hs : Grounds env) (h : Reach env fees absent w w') :
    ∀ busy, Ordered env busy w → Keeps env fees busy w w' := by
  induction h with
  | refl w => exact fun _ h => .refl h
  | trans _ _ ih ih' => exact fun busy h => (ih busy h).trans (ih' busy (ih busy h).ordered)
  | transfer src hx =>
    exact fun _ h => .of_outside hs h
      (transfer_outside hs.standard h.unapproved (Account.giving src _) hx)
  | transferFrom spender hx =>
    exact fun _ h => .of_outside hs h (transferFrom_outside hs.standard h.unapproved hx)
  | approve w token owner spender value =>
    exact fun _ h => .of_outside hs h (approve_outside h.unapproved)
  | permit _ hx =>
    exact fun _ h => .of_outside hs h (permit_outside hs.unsigned h.unapproved hx)
  | issue token hx => exact fun _ h => .of_outside hs h (issue_outside h.unapproved hx)
  | deposit src hx => exact fun _ h => .of_outside hs h (deposit_outside hs.WETH_free h.unapproved hx)
  | unwrap src hx => exact fun _ h => .of_outside hs h (unwrap_outside hs.WETH_free h.unapproved hx)
  | send src hv => exact fun _ h => .of_outside hs h (send_outside h.unapproved)
  | createPair hx => exact fun _ h => .createPair hs h hx
  | setFeeTo hf hx => exact fun _ h => .of_outside hs h (setFeeTo_outside hf h.unapproved hx)
  | setFeeToSetter hx => exact fun _ h => .of_outside hs h (setFeeToSetter_outside h.unapproved hx)
  | mint hx => exact fun _ h => .mint hs h hx
  | burn hx => exact fun _ h => .burn hs h hx
  | swap _ hx ih => exact fun _ h => .swap hs h ih hx
  | skim hx => exact fun _ h => .skim hs h hx
  | sync hx => exact fun _ h => .sync hs h hx

end Exchange

end ArkSwap
