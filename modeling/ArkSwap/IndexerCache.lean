import ArkSwap.IndexerEvents
import ArkSwap.IndexerScript

/-! The pairs in memory and the rows of the pairs table. Memory follows every log
at once and unguarded, and is not undone with a transaction: a Tick leaves them
alike if no call fails where the logs told since then part them. -/

namespace ArkSwap.GoInternal

open Prog Guarded

/-- What a pair's row and its copy in memory share. -/
def Pair.state (p : Pair) : Nat × Nat × Option Nat := (p.reserve0, p.reserve1, p.lastSyncBlock)

theorem Pair.state_eq_iff {p q : Option Pair} :
    p.map Pair.state = q.map Pair.state ↔ p.map Pair.entry = q.map Pair.entry := by
  rcases p with _ | p <;> rcases q with _ | q <;> simp [Pair.state, Pair.entry, and_assoc]

namespace Indexer

variable {cfg : Config} {o : Outside} {c : Chain} {header : Block} {ix ix' ix₀ : Indexer}
variable {db db' db₀ : Database} {known : Table Address Pair} {done pending rest logs : List Log}
variable {l : Log} {a : Address} {number : Nat} {tokens : List Token} {s : Sys}

/-- The same pairs, each with the same reserves and last sync block. -/
def PairsMirror (ix : Indexer) (db : Database) : Prop :=
  ∀ a : Address, ix.knownPairs[a]?.map Pair.state = db.pairs[a]?.map Pair.state

def PairsKeyed (db : Database) : Prop :=
  ∀ (a : Address) p, db.pairs[a]? = some p → p.address = a

structure Mirrors (ix : Indexer) (db : Database) : Prop where
  pairs : PairsMirror ix db
  keyed : PairsKeyed db

/-- Memory and table after some logs, from pairs that were the same in both. -/
structure Told (known : Table Address Pair) (done : List Log) (ix : Indexer) (db : Database) : Prop where
  memory : ∀ a : Address, ix.knownPairs[a]?.map Pair.entry =
    (toldOf a done).foldl (follow (0, 0)) (known[a]?.map Pair.entry)
  table : ∀ a : Address, db.pairs[a]?.map Pair.entry =
    (toldOf a done).foldl (hold (0, 0)) (known[a]?.map Pair.entry)
  keyed : PairsKeyed db

section Logs

theorem toldOf_append (a : Address) (done pending : List Log) :
    toldOf a (done ++ pending) = toldOf a done ++ toldOf a pending := by
  simp [toldOf]

theorem mem_toldOf {w : Write (Nat × Nat)} : w ∈ toldOf a logs ↔ ∃ l ∈ logs, told l = some (a, w) := by
  simp only [toldOf, List.mem_filterMap, Prod.exists, Option.ite_none_right_eq_some, Option.some.injEq]
  constructor
  · rintro ⟨b, w', ⟨l, hl, htold⟩, rfl, rfl⟩
    exact ⟨l, hl, htold⟩
  · rintro ⟨l, hl, htold⟩
    exact ⟨a, w, ⟨l, hl, htold⟩, rfl, rfl⟩

theorem toldOf_singleton_of_none (h : told l = none) : toldOf a [l] = [] := by
  simp [toldOf, h]

theorem toldOf_singleton {b : Address} {w : Write (Nat × Nat)} (h : told l = some (b, w)) :
    toldOf a [l] = if b = a then [w] else [] := by
  by_cases hb : b = a
  · simp [toldOf, h, hb]
  · simp [toldOf, h, hb]

/-- A Sync is told at the height of its block. -/
theorem told_height {w : Write (Nat × Nat)} {n : Nat} (h : told l = some (a, w)) (hn : n ∈ w.height) :
    n = l.blockNumber := by
  unfold told at h
  split at h
  · obtain ⟨ev, -, hev⟩ := Option.map_eq_some_iff.mp h
    rw [← (Prod.mk.inj hev).2] at hn
    cases hn
  · obtain ⟨ev, -, hev⟩ := Option.map_eq_some_iff.mp h
    rw [← (Prod.mk.inj hev).2] at hn
    exact (Option.some.inj hn).symm
  · cases h

theorem told_eq_none (hcreated : l.topic ≠ some .pairCreated) (hsync : l.topic ≠ some .sync) :
    told l = none := by
  unfold told
  split
  · rename_i htopic
    exact (hcreated htopic).elim
  · rename_i htopic
    exact (hsync htopic).elim
  · rfl

theorem told_of_skipped (h : applyLog cfg header ix l = none) : told l = none := by
  by_cases hcreated : l.topic = some .pairCreated
  · rw [applyLog, hcreated] at h
    rw [told, hcreated]
    exact Option.map_eq_none_iff.mpr (Option.map_eq_none_iff.mp h)
  · by_cases hsync : l.topic = some .sync
    · rw [applyLog, hsync] at h
      rw [told, hsync]
      exact Option.map_eq_none_iff.mpr (Option.map_eq_none_iff.mp h)
    · exact told_eq_none hcreated hsync

variable {statement : Statement}

theorem applied_memory (ha : Applied cfg header ix l statement ix') :
    ix'.knownPairs[a]?.map Pair.entry =
      (toldOf a [l]).foldl (follow (0, 0)) (ix.knownPairs[a]?.map Pair.entry) := by
  cases ha with
  | created p hp =>
    obtain ⟨htopic, ev, hev, rfl⟩ := pairOf_eq_some.mp hp
    have htold : told l = some (ev.pair, .start) := by rw [told, htopic, hev]; rfl
    rw [toldOf_singleton htold, addPair, Table.get_insert,
      show (createdPair header l ev).address = ev.pair from rfl]
    by_cases hpair : a = ev.pair
    · rw [if_pos hpair, if_pos hpair.symm]
      rfl
    · rw [if_neg hpair, if_neg (Ne.symm hpair)]
      rfl
  | synced ev htopic hev =>
    have htold : told l = some (l.address, .set (ev.reserve0, ev.reserve1) l.blockNumber) := by
      rw [told, htopic, hev]; rfl
    rw [toldOf_singleton htold, syncPair, Table.get_modify]
    by_cases haddress : a = l.address
    · rw [if_pos haddress, if_pos haddress.symm, haddress]
      rcases ix.knownPairs[l.address]? with _ | p
      · rfl
      · rfl
    · rw [if_neg haddress, if_neg (Ne.symm haddress)]
      rfl
  | swapped w p hw hp =>
    rw [toldOf_singleton_of_none (told_eq_none (by simp [(swapOf_eq_some.mp hw).1])
      (by simp [(swapOf_eq_some.mp hw).1]))]
    rfl
  | deposited e he =>
    rw [toldOf_singleton_of_none (told_eq_none
      (by rcases (liquidityOf_fields he).1 with h | h <;> simp [h])
      (by rcases (liquidityOf_fields he).1 with h | h <;> simp [h]))]
    rfl

theorem applied_table (ha : Applied cfg header ix l statement ix') :
    (statement.effect db).pairs[a]?.map Pair.entry =
      (toldOf a [l]).foldl (hold (0, 0)) (db.pairs[a]?.map Pair.entry) := by
  cases ha with
  | created p hp =>
    obtain ⟨htopic, ev, hev, rfl⟩ := pairOf_eq_some.mp hp
    have htold : told l = some (ev.pair, .start) := by rw [told, htopic, hev]; rfl
    rw [toldOf_singleton htold, Database.upsertPair]
    dsimp only
    rw [Table.get_insertIfNew, show (createdPair header l ev).address = ev.pair from rfl]
    by_cases hpair : a = ev.pair
    · rw [if_pos hpair.symm, hpair]
      rcases hrow : db.pairs[ev.pair]? with _ | row
      · rw [if_pos ⟨rfl, rfl⟩]
        rfl
      · rw [if_neg (by simp)]
        rfl
    · rw [if_neg (Ne.symm hpair), if_neg fun h => hpair h.1]
      rfl
  | synced ev htopic hev =>
    have htold : told l = some (l.address, .set (ev.reserve0, ev.reserve1) l.blockNumber) := by
      rw [told, htopic, hev]; rfl
    rw [toldOf_singleton htold, Database.setPairReserves]
    dsimp only
    rw [Table.get_modify]
    by_cases haddress : a = l.address
    · rw [if_pos haddress, if_pos haddress.symm, haddress]
      rcases db.pairs[l.address]? with _ | p
      · rfl
      · change some (Pair.entry (if p.lastSyncBlock.all (· ≤ l.blockNumber) = true then _ else _)) =
          some (if p.lastSyncBlock.all (· ≤ l.blockNumber) = true then _ else _)
        by_cases hguard : p.lastSyncBlock.all (· ≤ l.blockNumber) = true
        · rw [if_pos hguard, if_pos hguard]
          rfl
        · rw [if_neg hguard, if_neg hguard]
    · rw [if_neg haddress, if_neg (Ne.symm haddress)]
      rfl
  | swapped w p hw hp =>
    rw [toldOf_singleton_of_none (told_eq_none (by simp [(swapOf_eq_some.mp hw).1])
      (by simp [(swapOf_eq_some.mp hw).1]))]
    rfl
  | deposited e he =>
    rw [toldOf_singleton_of_none (told_eq_none
      (by rcases (liquidityOf_fields he).1 with h | h <;> simp [h])
      (by rcases (liquidityOf_fields he).1 with h | h <;> simp [h]))]
    rfl

theorem applied_keyed (h : PairsKeyed db) (ha : Applied cfg header ix l statement ix') :
    PairsKeyed (statement.effect db) := by
  intro b q hq
  cases ha with
  | created p hp =>
    rw [Database.upsertPair] at hq
    dsimp only at hq
    rw [Table.get_insertIfNew] at hq
    split at hq
    · rename_i hb
      rw [← Option.some.inj hq]
      exact hb.1.symm
    · exact h b q hq
  | synced ev htopic hev =>
    rw [Database.setPairReserves] at hq
    dsimp only at hq
    rw [Table.get_modify] at hq
    split at hq
    · rename_i hb
      obtain ⟨row, hrow, rfl⟩ := Option.map_eq_some_iff.mp hq
      rw [hb]
      split
      · exact h l.address row hrow
      · exact h l.address row hrow
    · exact h b q hq
  | swapped w p hw hp => exact h b q hq
  | deposited e he => exact h b q hq

theorem Told.applied (h : Told known done ix db) (ha : Applied cfg header ix l statement ix') :
    Told known (done ++ [l]) ix' (statement.effect db) where
  memory a := by rw [applied_memory ha, toldOf_append, List.foldl_append, ← h.memory]
  table a := by rw [applied_table ha, toldOf_append, List.foldl_append, ← h.table]
  keyed := applied_keyed h.keyed ha

theorem Told.skipped (h : Told known done ix db) (hnone : applyLog cfg header ix l = none) :
    Told known (done ++ [l]) ix db where
  memory a := by
    rw [toldOf_append, toldOf_singleton_of_none (told_of_skipped hnone), List.append_nil, h.memory]
  table a := by
    rw [toldOf_append, toldOf_singleton_of_none (told_of_skipped hnone), List.append_nil, h.table]
  keyed := h.keyed

theorem Told.congr (h : Told known done ix db) (hix : ix'.knownPairs = ix.knownPairs)
    (hdb : db'.pairs = db.pairs) : Told known done ix' db' where
  memory a := by rw [hix, h.memory]
  table a := by rw [hdb, h.table]
  keyed a p hp := h.keyed a p (by rw [← hdb]; exact hp)

theorem Told.initial (h : Mirrors ix db) : Told ix.knownPairs [] ix db where
  memory _ := rfl
  table a := (Pair.state_eq_iff.mp (h.pairs a)).symm
  keyed := h.keyed

theorem Told.contains (h : Told known done ix db) (a : Address) :
    ix.knownPairs.contains a = (known.contains a || (toldOf a done).any Write.isStart) ∧
      db.pairs.contains a = ix.knownPairs.contains a := by
  have hmemory := congrArg Option.isSome (h.memory a)
  have htable := congrArg Option.isSome (h.table a)
  rw [isSome_foldl_follow, Option.isSome_map, Option.isSome_map] at hmemory
  rw [isSome_foldl_hold, Option.isSome_map, Option.isSome_map] at htable
  simp only [Std.ExtTreeMap.contains_eq_isSome_getElem?]
  exact ⟨hmemory, htable.trans hmemory.symm⟩

/-- Written logs come in the order of their blocks, and those of an open transaction are
of a later block. -/
structure InOrder (done pending : List Log) : Prop where
  grow : done.Pairwise fun l k => l.blockNumber ≤ k.blockNumber
  below : ∀ l ∈ done, ∀ k ∈ pending, l.blockNumber < k.blockNumber

theorem InOrder.of_grow (h : done.Pairwise fun l k => l.blockNumber ≤ k.blockNumber) : InOrder done [] :=
  ⟨h, fun _ _ _ hk => (List.not_mem_nil hk).elim⟩

/-- Where the logs tell of each pair what its row says, memory mirrors the table. -/
theorem Told.mirrors (hmemory : Told known (done ++ pending) ix db') (htable : Told known done ix₀ db)
    (horder : InOrder done pending) (hsame : tellSame known done pending = true) : Mirrors ix db := by
  refine ⟨fun a => Pair.state_eq_iff.mpr ?_, htable.keyed⟩
  rw [hmemory.memory a, htable.table a, toldOf_append]
  have hpairwise : (toldOf a done).Pairwise fun w u => ∀ k ∈ w.height, ∀ n ∈ u.height, k ≤ n := by
    rw [toldOf, List.pairwise_filterMap, List.pairwise_filterMap]
    refine horder.grow.imp fun {l k} hle e he e' he' w hw u hu n hn m hm => ?_
    obtain ⟨-, hw⟩ := Option.ite_none_right_eq_some.mp hw
    obtain ⟨-, hu⟩ := Option.ite_none_right_eq_some.mp hu
    rw [← Option.some.inj hw] at hn
    rw [← Option.some.inj hu] at hm
    rw [told_height he hn, told_height he' hm]
    exact hle
  have hbelow : ∀ w ∈ toldOf a done, ∀ k ∈ w.height, ∀ u ∈ toldOf a pending, ∀ n ∈ u.height, k < n := by
    intro w hw k hk u hu n hn
    obtain ⟨l, hl, htold⟩ := mem_toldOf.mp hw
    obtain ⟨l', hl', htold'⟩ := mem_toldOf.mp hu
    rw [told_height htold hk, told_height htold' hn]
    exact horder.below l hl l' hl'
  -- A pair that no log tells of is as it was; of the others the check was made.
  by_cases hnone : toldOf a (done ++ pending) = []
  · rw [toldOf_append, List.append_eq_nil_iff] at hnone
    rw [hnone.1, hnone.2]
    rfl
  · obtain ⟨w, hw⟩ := List.exists_mem_of_ne_nil _ hnone
    obtain ⟨l, hl, htold⟩ := mem_toldOf.mp hw
    have hall := List.all_eq_true.mp hsame (a, w) (List.mem_filterMap.mpr ⟨l, hl, htold⟩)
    exact follow_eq_hold_of_restated hpairwise hbelow hall

theorem Told.self_mirrors (h : Told known done ix db) (horder : InOrder done [])
    (hsame : tellSame known done [] = true) : Mirrors ix db :=
  Told.mirrors (by rw [List.append_nil]; exact h) h horder hsame

end Logs

/-- A pair tells nothing of itself before it is known or announced. -/
def Introduced (known : Table Address Pair) (logs : List Log) : Prop :=
  ∀ before l after, logs = before ++ l :: after → Chain.PairTopic l →
    known.contains l.address = true ∨ (toldOf l.address before).any Write.isStart = true

theorem Introduced.left (h : Introduced known (done ++ rest)) : Introduced known done := by
  intro before l after heq
  exact h before l (after ++ rest) (by rw [heq, List.append_assoc, List.cons_append])

section Block

variable {statement : Statement} {abi : ERC20ABI}

/-- A log's statement is checked on memory as it is on the tables. -/
theorem applied_allowed (h : Told known done ix db) (hl : l ∈ logs)
    (htable : TokensStored header logs db) (hmemory : TokensStored header logs (references ix))
    (hknown : Chain.PairTopic l → ix.knownPairs.contains l.address = true)
    (ha : Applied cfg header ix l statement ix') :
    statement.allowed db = statement.allowed (references ix) := by
  have hpairs : ∀ a, db.pairs.contains a = (references ix).pairs.contains a := fun a =>
    (h.contains a).2
  cases ha with
  | created p hp =>
    obtain ⟨h₀, h₁⟩ := htable l hl p hp
    obtain ⟨h₀', h₁'⟩ := hmemory l hl p hp
    simp only [Database.upsertPair, hpairs, h₀, h₁, h₀', h₁']
  | synced ev htopic hev => rfl
  | swapped w p hw hp =>
    have htopic := (swapOf_eq_some.mp hw).1
    have hcontains := hknown ⟨.swap, by decide, htopic⟩
    have haddress : (ix.valuedSwap w p).pairAddress = l.address := by
      obtain ⟨-, ev, -, rfl⟩ := swapOf_eq_some.mp hw
      rw [valuedSwap, normalizeSwap]
      split
      · rfl
      · split
        · rfl
        · rfl
    have hstored : (references ix).pairs.contains l.address = true := hcontains
    simp only [Database.insertSwap, hpairs, haddress, hstored, Bool.or_true]
  | deposited e he =>
    obtain ⟨htopic, -, -, -, haddress⟩ := liquidityOf_fields he
    have hcontains := hknown <| by
      rcases htopic with htopic | htopic
      · exact ⟨.mint, by decide, htopic⟩
      · exact ⟨.burn, by decide, htopic⟩
    have hstored : (references ix).pairs.contains l.address = true := hcontains
    have hpair : (ix.valuedLiquidity e).pairAddress = l.address := haddress
    simp only [Database.insertLiquidityEvent, hpairs, hpair, hstored, Bool.or_true]

theorem loadTokens_stored (hfetched : Fetched cfg abi (createdTokens logs) tokens) :
    TokensStored header logs (references (ix.loadTokens tokens)) := by
  have hcontains : ∀ a ∈ createdTokens logs, (ix.loadTokens tokens).knownTokens.contains a = true := by
    intro a ha
    obtain ⟨t, ht, hta⟩ := hfetched.covers a ha
    refine Table.contains_of_get (v := t) ?_
    rw [loadTokens_get hfetched.distinct, recordOf_of_mem hfetched.distinct ht hta]
    rfl
  intro l hl p hp
  obtain ⟨h₀, h₁⟩ := mem_createdTokens hl hp
  exact ⟨hcontains _ h₀, hcontains _ h₁⟩

/-- The logs of an open transaction, from some first ones of them on. -/
theorem obeys_writeLogs (htable : Told known done ix₀ db₀) (horder : InOrder done (pending ++ rest))
    (hrest : ∀ l ∈ rest, l ∈ logs) (htokens : TokensStored header logs s.db)
    (hmemory : TokensStored header logs (references s.ix))
    (hknown : Introduced known (done ++ pending ++ rest))
    (h : Told known (done ++ pending) s.ix s.db) :
    Obeys Sys.calls (logSites cfg o header (tellSame known done) s.ix pending rest)
      (Prog.forEach (writeLog cfg o header) rest) s
      (fun _ => On fun ix db => Told known (done ++ pending ++ rest) ix db ∧
        ix = rest.foldl (memoryLog cfg header) s.ix)
      (On fun ix _ => Mirrors ix db₀) := by
  induction rest generalizing pending s with
  | nil => exact Obeys.pure ⟨by rw [List.append_nil]; exact h, rfl⟩
  | cons l rest ih =>
    have hone : pending ++ l :: rest = pending ++ [l] ++ rest := by simp
    have hsome : done ++ pending ++ l :: rest = done ++ (pending ++ [l]) ++ rest := by simp
    rw [hone] at horder
    rw [hsome] at hknown
    have hrest' : ∀ k ∈ rest, k ∈ logs := fun k hk => hrest k (List.mem_cons_of_mem l hk)
    have hopen : InOrder done pending := ⟨horder.grow, fun k hk m hm =>
      horder.below k hk m (List.mem_append_left _ (List.mem_append_left _ hm))⟩
    rw [logSites, Prog.forEach]
    rcases ha : applyLog cfg header s.ix l with _ | ⟨statement, ix'⟩
    · have hstay : writeLog cfg o header l s = (.ok (), s) := by
        simp only [writeLog, Prog.get, bind, ha, pure]
      have hskipped : Told known (done ++ (pending ++ [l])) s.ix s.db := by
        rw [← List.append_assoc]
        exact h.skipped ha
      refine (Obeys.of_eq (bind_of_ok _ hstay) rfl
        (ih horder hrest' htokens hmemory hknown hskipped)).conseq (fun _ t ht => ?_) fun _ h => h
      rw [hsome, List.foldl_cons, memoryLog, ha]
      exact ht
    · -- Memory is set only after the statement, so a refused one leaves both as they were.
      have hgo : (writeLog cfg o header l >>= fun _ => Prog.forEach (writeLog cfg o header) rest) s =
          (exec o statement >>= fun _ => remember (fun _ => ix') >>= fun _ =>
            Prog.forEach (writeLog cfg o header) rest) s := by
        rw [← bind_assoc]
        simp only [writeLog, Prog.get, bind, ha]
      have happlied := applied_of_applyLog ha
      have hallowed : statement.allowed s.db = statement.allowed (references s.ix) := by
        refine applied_allowed h (hrest l List.mem_cons_self) htokens hmemory (fun htopic => ?_) happlied
        rw [(h.contains l.address).1, Bool.or_eq_true]
        exact hknown (done ++ pending) l rest (by simp) htopic
      refine Obeys.of_eq hgo rfl (Obeys.bind (u := [_]) (obeys_exec hallowed fun hsame =>
        h.mirrors htable hopen hsame) fun _ t ht _ => ?_)
      obtain ⟨-, hrun⟩ := ht
      have hstep : [l].foldlM (stepLog cfg header) (s.ix, s.db) = some (ix', t.db) := by
        rw [List.foldlM_cons, stepLog]
        simp only [ha, hrun]
        rfl
      have heffect : t.db = statement.effect s.db := Statement.effect_of_run hrun
      have hafter : memoryLog cfg header s.ix l = ix' := by rw [memoryLog, ha]
      have hsameTokens : ix'.knownTokens = s.ix.knownTokens := by rw [← hafter, memoryLog_tokens]
      refine Obeys.bind (u := []) (Obeys.modify (R := fun _ => On (At ix' t.db)) rfl ⟨rfl, rfl⟩)
        fun _ u hu _ => ?_
      obtain ⟨hix, hdb⟩ := hu
      have htold : Told known (done ++ (pending ++ [l])) u.ix u.db := by
        rw [← List.append_assoc, hix, hdb, heffect]
        exact h.applied happlied
      have hstored : TokensStored header logs u.db := by
        rw [TokensStored, hdb, stepLogs_tokens hstep]
        exact htokens
      have hheld : TokensStored header logs (references u.ix) := by
        rw [hix, TokensStored, references, hsameTokens]
        exact hmemory
      rw [← hix]
      refine (ih horder hrest' hstored hheld hknown htold).conseq (fun _ r hr => ?_) fun _ h => h
      rw [hsome, List.foldl_cons, hafter, ← hix]
      exact hr

/-- What a transaction leaves of the pairs, and the memory with it. -/
def Wrote (cfg : Config) (header : Block) (known : Table Address Pair) (done logs : List Log)
    (ix₀ ix : Indexer) (db : Database) : Prop :=
  Told known (done ++ logs) ix db ∧ ix = logs.foldl (memoryLog cfg header) ix₀

theorem obeys_setCursor {spares : Nat → Bool} {E : Indexer → Database → Prop} {b : Block}
    (hspares : spares s.calls = true → E s.ix s.db) :
    Obeys Sys.calls [cursorSite cfg o number spares] (setCursor cfg o number b) s
      (fun _ => On (At s.ix ((cursorAt cfg number b).effect s.db))) (On E) :=
  (show Obeys Sys.calls [cursorSite cfg o number spares] (setCursor cfg o number b) s _ (On E) from
    obeys_exec (rfl : (cursorAt cfg number b).allowed s.db = _) hspares).conseq
      (fun _ _ ht => ⟨ht.1, Statement.effect_of_run ht.2⟩) fun _ h => h

theorem obeys_closing (htable : Told known done ix₀ db₀) (horder : InOrder done logs)
    (h : Wrote cfg header known done logs ix s.ix s.db) :
    Obeys Sys.calls ((snapshotStatements cfg header s.ix logs ++ [cursorAt cfg number header]).map
        (execSite o s.ix fun _ => tellSame known done logs))
      (writeSnapshots cfg o header logs >>= fun _ => setCursor cfg o number header) s
      (fun _ => On (Wrote cfg header known done logs ix)) (On fun ix _ => Mirrors ix db₀) := by
  have hmirrors : tellSame known done logs = true → Mirrors s.ix db₀ := h.1.mirrors htable horder
  have hpairs : ∀ snap ∈ snapshotPairs cfg header s.ix (syncedPairs logs), ∀ d : Database,
      d.pairs = s.db.pairs → (Database.upsertPairSnapshot snap).allowed d =
        (Database.upsertPairSnapshot snap).allowed (references s.ix) ∧
          ((Database.upsertPairSnapshot snap).effect d).pairs = s.db.pairs := by
    intro snap _ d hd
    have hcontains : d.pairs.contains snap.pairAddress =
        (references s.ix).pairs.contains snap.pairAddress := by
      rw [hd]
      exact (h.1.contains snap.pairAddress).2
    exact ⟨by simp only [Database.upsertPairSnapshot, hcontains], hd⟩
  have hsites : (snapshotStatements cfg header s.ix logs ++ [cursorAt cfg number header]).map
      (execSite o s.ix fun _ => tellSame known done logs) =
        (snapshotPairs cfg header s.ix (syncedPairs logs)).map (fun snap => site o
          (!(Database.upsertPairSnapshot snap).allowed (references s.ix)) fun _ => tellSame known done logs) ++
        [execSite o s.ix (fun _ => tellSame known done logs) (cursorAt cfg number header)] := by
    rw [List.map_append, snapshotStatements, List.map_map]
    rfl
  rw [hsites]
  refine Obeys.bind (obeys_execAll hpairs rfl fun hany => hany.elim fun _ => hmirrors) fun _ t ht _ => ?_
  obtain ⟨hix, hrun⟩ := ht
  have hsame : t.db.pairs = s.db.pairs := runAll_inv (P := fun d => d.pairs = s.db.pairs)
    (fun st hst d hd => by
      obtain ⟨snap, -, rfl⟩ := List.mem_map.mp hst
      exact hd) rfl hrun
  refine (obeys_setCursor (E := fun ix _ => Mirrors ix db₀) fun hsame => ?_).conseq
    (fun _ r hr => ?_) fun _ h => h
  · rw [hix]
    exact hmirrors hsame
  · rw [On, hr.1, hr.2, hix]
    exact ⟨h.1.congr rfl hsame, h.2⟩

theorem obeys_writeBlock (h : Told known done s.ix s.db) (horder : InOrder done logs)
    (hfetched : Fetched cfg abi (createdTokens logs) tokens)
    (hmemory : TokensStored header logs (references s.ix)) (hknown : Introduced known (done ++ logs)) :
    Obeys Sys.calls (writeSites cfg o known done header number tokens logs s.ix)
      (writeBlock cfg o header number tokens logs) s
      (fun _ => On (Wrote cfg header known done logs s.ix)) (On fun ix _ => Mirrors ix s.db) := by
  have hnone : InOrder done [] := .of_grow horder.grow
  have hmirrors : tellSame known done [] = true → Mirrors s.ix s.db := h.self_mirrors hnone
  have hsites : writeSites cfg o known done header number tokens logs s.ix =
      [execSite o s.ix (fun _ => tellSame known done []) (Database.insertBlock header)] ++
        (tokens.map (fun t => site o (!(Database.upsertToken t).allowed (references s.ix))
          fun _ => tellSame known done []) ++
        (logSites cfg o header (tellSame known done) s.ix [] logs ++
          (snapshotStatements cfg header (logs.foldl (memoryLog cfg header) s.ix) logs ++
            [cursorAt cfg number header]).map (execSite o (logs.foldl (memoryLog cfg header) s.ix)
              fun _ => tellSame known done logs))) := by
    rw [writeSites, openingStatements, List.map_cons, List.map_map]
    rfl
  rw [hsites]
  refine Obeys.bind (obeys_exec rfl hmirrors) fun _ t ht _ => ?_
  obtain ⟨hix, hblock⟩ := ht
  have htokens : Obeys Sys.calls (tokens.map fun t =>
        site o (!(Database.upsertToken t).allowed (references s.ix)) fun _ => tellSame known done [])
      (Prog.forEach (fun t => exec o (Database.upsertToken t)) tokens) t
      (fun _ => On fun ix d => ix = t.ix ∧ runAll (tokens.map Database.upsertToken) t.db = some d)
      (On fun ix _ => Mirrors ix s.db) := by
    refine obeys_execAll (P := fun _ => True) (fun _ _ _ _ => ⟨rfl, True.intro⟩) True.intro ?_
    rintro ⟨_, hsame⟩
    rw [hix]
    exact hmirrors hsame
  refine Obeys.bind htokens fun _ r hr _ => ?_
  obtain ⟨hrix, hrun⟩ := hr
  have hopen : runAll (openingStatements header tokens) s.db = some r.db := by
    rw [openingStatements, runAll, List.foldlM_cons, hblock]
    exact hrun
  have hstart : r.ix = s.ix := hrix.trans hix
  rw [← hstart] at hmemory ⊢
  refine Obeys.bind (obeys_writeLogs h (List.nil_append logs ▸ horder) (fun _ hl => hl)
    (opening_tokens hfetched hopen) hmemory (by rw [List.append_nil]; exact hknown) ?_)
    fun _ u hu _ => ?_
  · rw [List.append_nil]
    exact h.congr (congrArg Indexer.knownPairs hstart) (opening_rows hopen).pairs
  · have hwrote : Wrote cfg header known done logs r.ix u.ix u.db := by
      rw [Wrote, ← List.append_nil done]
      exact hu
    rw [← hwrote.2]
    exact obeys_closing h horder hwrote

theorem obeys_transaction (h : Told known done s.ix s.db) (horder : InOrder done logs)
    (hafter : InOrder (done ++ logs) []) (hfetched : Fetched cfg abi (createdTokens logs) tokens)
    (hmemory : TokensStored header logs (references s.ix)) (hknown : Introduced known (done ++ logs)) :
    Obeys Sys.calls (transactionSites cfg o known done header number tokens logs s.ix)
      (inBlockTx o (writeBlock cfg o header number tokens logs)) s
      (fun _ => On (Wrote cfg header known done logs s.ix)) (On Mirrors) := by
  have hnone : InOrder done [] := .of_grow horder.grow
  refine obeys_inBlockTx (h.self_mirrors hnone) (fun t ht _ => ?_) fun t n ht hsame => ?_
  · obtain ⟨hix, hdb⟩ := ht
    rw [← hix, ← hdb] at h
    rw [← hix] at hmemory
    rw [← hix, ← hdb]
    exact obeys_writeBlock h horder hfetched hmemory hknown
  · split
    · rename_i hlost
      rw [if_pos hlost] at hsame
      exact ht.1.self_mirrors hafter hsame
    · rename_i hkept
      rw [if_neg hkept] at hsame
      exact ht.1.mirrors h horder hsame

theorem fetchTokens_records (addresses : List Address) (tokens : List Token) (s : Sys) :
    ∃ t, fetchTokens cfg o addresses tokens s = (.ok (recordsAt cfg o s.calls addresses tokens), t) ∧
      t.calls + 3 * tokens.length = s.calls + 3 * (recordsAt cfg o s.calls addresses tokens).length := by
  induction addresses generalizing tokens s with
  | nil => exact ⟨s, rfl, rfl⟩
  | cons a addresses ih =>
    rw [fetchTokens, recordsAt]
    split
    · exact ih tokens s
    · have hrun : fetchToken cfg o a s =
          (.ok (recordAt cfg o s.calls a), { s with calls := s.calls + 3 }) := rfl
      rw [bind_of_ok _ hrun]
      obtain ⟨t, ht, hcalls⟩ := ih (tokens ++ [recordAt cfg o s.calls a])
        ⟨{ s.ix with knownTokens := s.ix.knownTokens.insert a (recordAt cfg o s.calls a) }, s.db, s.calls + 3⟩
      refine ⟨t, ht, ?_⟩
      simp only [List.length_append, List.length_singleton] at hcalls
      omega

theorem obeys_fetchTokens {E : Sys → Prop} {addresses : List Address} :
    Obeys Sys.calls (List.replicate (3 * (recordsAt cfg o s.calls addresses []).length) passed)
      (fetchTokens cfg o addresses []) s
      (fun ts t => ts = recordsAt cfg o s.calls addresses [] ∧ On (At (s.ix.loadTokens ts) s.db) t ∧
        Fetched cfg o.abi addresses ts) E := by
  obtain ⟨t, ht, hcalls⟩ := @fetchTokens_records cfg o addresses [] s
  obtain ⟨hat, hfetched⟩ := (@fetchTokens_triple cfg o s.ix s.db addresses [] []
    ⟨by simp, by simp, List.Pairwise.nil⟩ s ⟨rfl, rfl⟩).1 _ t ht
  rw [List.nil_append] at hfetched
  exact Obeys.never (fun _ => rfl) ht hcalls ⟨rfl, hat, hfetched⟩

variable (hchain : ∀ k, o.chain k = c)
include hchain

theorem obeys_processBlock {bn : Nat} (hheader : c.headerAt bn = some header)
    (h : Told known done s.ix s.db) (horder : InOrder done logs) (hafter : InOrder (done ++ logs) [])
    (hknown : Introduced known (done ++ logs)) :
    Obeys Sys.calls (site o false (fun _ => tellSame known done []) ::
        (List.replicate (3 * (recordsAt cfg o (s.calls + 1) (createdTokens logs) []).length) passed ++
          transactionSites cfg o known done header bn
            (recordsAt cfg o (s.calls + 1) (createdTokens logs) []) logs
            (s.ix.loadTokens (recordsAt cfg o (s.calls + 1) (createdTokens logs) []))))
      (processBlock cfg o bn logs) s
      (fun _ => On (Wrote cfg header known done logs
        (s.ix.loadTokens (recordsAt cfg o (s.calls + 1) (createdTokens logs) [])))) (On Mirrors) := by
  have hnone : InOrder done [] := .of_grow horder.grow
  have hfirst : Obeys Sys.calls [site o false (fun _ => tellSame known done [])] (headerByNumber o bn) s
      (fun b t => c.headerAt bn = some b ∧ On (At s.ix s.db) t) (On Mirrors) :=
    obeys_header (hchain s.calls) (by rw [hheader]; rfl) (h.self_mirrors hnone)
  refine Obeys.bind (u := [_]) hfirst fun b t ht hcalls => ?_
  obtain ⟨hb, hix, hdb⟩ := ht
  obtain rfl : header = b := Option.some.inj (hheader.symm.trans hb)
  have hnext : t.calls = s.calls + 1 := hcalls
  rw [← hnext, ← hix]
  refine Obeys.bind obeys_fetchTokens fun tokens r hr _ => ?_
  obtain ⟨rfl, ⟨hrix, hrdb⟩, hfetched⟩ := hr
  have hloaded : r.ix.knownPairs = s.ix.knownPairs := by rw [hrix, loadTokens, hix]
  rw [← hrix]
  refine obeys_transaction (h.congr hloaded (congrArg Database.pairs (hrdb.trans hdb))) horder hafter
    hfetched ?_ hknown
  rw [hrix]
  exact loadTokens_stored hfetched

omit hchain in
theorem blocksLogs_cons (logs : List Log) (bn : Nat) (rest : List Nat) :
    blocksLogs logs (bn :: rest) = (logs.filter fun l => l.blockNumber = bn) ++ blocksLogs logs rest :=
  List.flatMap_cons

theorem obeys_blocks {blocks : List Nat} (hsorted : blocks.Pairwise (· < ·))
    (hgrow : done.Pairwise fun l k => l.blockNumber ≤ k.blockNumber)
    (hbelow : ∀ l ∈ done, ∀ bn ∈ blocks, l.blockNumber < bn)
    (hknown : Introduced known (done ++ blocksLogs logs blocks)) (h : Told known done s.ix s.db) :
    Obeys Sys.calls (blocksSites cfg o known c logs done s.ix s.calls blocks)
      (Prog.forEach (fun bn => processBlock cfg o bn (logs.filter fun l => l.blockNumber = bn)) blocks) s
      (fun _ => On (Told known (done ++ blocksLogs logs blocks))) (On Mirrors) := by
  induction blocks generalizing done s with
  | nil =>
    refine Obeys.pure ?_
    rw [blocksLogs, List.flatMap_nil, List.append_nil]
    exact h
  | cons bn blocks ih =>
    have hnone : InOrder done [] := .of_grow hgrow
    rw [blocksSites, Prog.forEach]
    rcases hheader : c.headerAt bn with _ | header
    · have hfirst : Obeys Sys.calls [site o true (fun _ => tellSame known done [])]
          (headerByNumber o bn) s (fun b t => c.headerAt bn = some b ∧ On (At s.ix s.db) t)
          (On Mirrors) :=
        obeys_header (hchain s.calls) (by rw [hheader]; rfl) (h.self_mirrors hnone)
      rw [processBlock, bind_assoc]
      refine Obeys.bind (v := []) hfirst fun b t ht _ => ?_
      rw [hheader] at ht
      cases ht.1
    · have hown : ∀ l ∈ logs.filter fun l => l.blockNumber = bn, l.blockNumber = bn := fun l hl =>
        of_decide_eq_true (List.mem_filter.mp hl).2
      have hopen : InOrder done (logs.filter fun l => l.blockNumber = bn) := by
        refine ⟨hgrow, fun l hl k hk => ?_⟩
        rw [hown k hk]
        exact hbelow l hl bn List.mem_cons_self
      have hafter : InOrder (done ++ logs.filter fun l => l.blockNumber = bn) [] := by
        refine .of_grow (List.pairwise_append.mpr ⟨hgrow, ?_, fun l hl k hk => (hopen.below l hl k hk).le⟩)
        exact List.pairwise_of_forall_mem_list fun l hl k hk => by rw [hown l hl, hown k hk]
      rw [blocksLogs_cons, ← List.append_assoc] at hknown ⊢
      obtain ⟨hfirst, hrest⟩ := List.pairwise_cons.mp hsorted
      refine Obeys.bind (obeys_processBlock hchain hheader h hopen hafter hknown.left)
        fun _ t ht hcalls => ?_
      rw [← hcalls, ← ht.2]
      refine ih hrest hafter.grow (fun l hl bn' hbn' => ?_) hknown ht.1
      rcases List.mem_append.mp hl with hl | hl
      · exact hbelow l hl bn' (List.mem_cons_of_mem bn hbn')
      · rw [hown l hl]
        exact hfirst bn' hbn'

end Block

section Range

variable {chains : Set Chain} {fromBlock toBlock : Nat}

theorem mem_blocksLogs : l ∈ blocksLogs logs (blockNums logs) ↔ l ∈ logs := by
  simp only [blocksLogs, List.mem_flatMap, mem_blockNums, List.mem_filter, decide_eq_true_eq]
  exact ⟨fun ⟨_, _, hl, _⟩ => hl, fun hl => ⟨_, ⟨l, hl, rfl⟩, hl, rfl⟩⟩

theorem blocksLogs_pairwise (h : logs.Pairwise fun l k => ¬k.Before l) :
    (blocksLogs logs (blockNums logs)).Pairwise fun l k => ¬k.Before l := by
  refine List.pairwise_flatMap.mpr ⟨fun bn _ => h.filter _, (blockNums_pairwise logs).imp ?_⟩
  intro bn bn' hlt l hl k hk hbefore
  have hlb := of_decide_eq_true (List.mem_filter.mp hl).2
  have hkb := of_decide_eq_true (List.mem_filter.mp hk).2
  have hle := hbefore.le
  omega

/-- A pair tells nothing before it is created, and the range has its creation if it is
not known. -/
theorem rangeLogs_introduced (hnet : Chain.Network cfg chains) (hc : c ∈ chains) :
    Introduced ix.knownPairs (blocksLogs (rangeLogs cfg c ix fromBlock toBlock)
      (blockNums (rangeLogs cfg c ix fromBlock toBlock))) := by
  intro before l after heq htopic
  have hwf := hnet.wellFormed c hc
  have hmem : ∀ k, k ∈ before ++ l :: after ↔
      k ∈ fetched cfg c (ix.knownPairs.toList.map Prod.fst) fromBlock toBlock := fun k => by
    rw [← heq, mem_blocksLogs, rangeLogs, mem_sortLogs]
  have hl := (hmem l).mp (List.mem_append_right before List.mem_cons_self)
  obtain ⟨hemits, -, -, ⟨-, hcreated⟩ | ⟨-, hknown | ⟨m, ev, hm, hfrom, hto⟩⟩⟩ := (mem_fetched hwf).mp hl
  · obtain ⟨t, ht, hlt⟩ := htopic
    rw [hcreated] at hlt
    obtain rfl := Option.some.inj hlt
    exact absurd ht (by decide)
  · obtain ⟨p, hp⟩ := mem_keys.mp hknown
    exact Or.inl (Table.contains_of_get hp)
  · obtain ⟨m', ev', hm', hbefore⟩ := hnet.created_first c hc c hc l hemits ⟨m, ev, hm⟩ htopic
    obtain rfl : m' = m := hwf.created_once l.address m' ev' m ev hm' hm
    have hall := (hmem m').mpr ((mem_fetched hwf).mpr
      ⟨hm.emits, hfrom, hto, Or.inl ⟨hm.factory, hm.topic⟩⟩)
    have hsorted : (before ++ l :: after).Pairwise fun l k => ¬k.Before l := by
      rw [← heq, rangeLogs]
      exact blocksLogs_pairwise (sortLogs_pairwise _)
    have hearlier : m' ∈ before := by
      rcases List.mem_append.mp hall with hin | hin
      · exact hin
      · rcases List.mem_cons.mp hin with rfl | hin
        · rw [Log.Before] at hbefore
          omega
        · have hlater := (List.pairwise_cons.mp (List.pairwise_append.mp hsorted).2.1).1 m' hin
          exact (hlater hbefore).elim
    refine Or.inr (List.any_eq_true.mpr ⟨.start, mem_toldOf.mpr ⟨m', hearlier, ?_⟩, rfl⟩)
    rw [told, hm.topic, hm.decoded, ← hm.pair]
    rfl

theorem refused_mirrors {e : String} :
    Triple (On Mirrors) (refused e) (fun _ => On Mirrors) (On Mirrors) := by
  refine Triple.bind (Triple.get (R := fun _ => On Mirrors) fun _ hs => hs) fun r => ?_
  by_cases hsmall : rangeTooLarge e ∧ 1 < r.ix.batchSize
  · rw [if_pos hsmall]
    exact Triple.modify fun s hs => ⟨hs.pairs, hs.keyed⟩
  · rw [if_neg hsmall]
    exact Triple.fail fun _ hs => hs

variable (hchain : ∀ k, o.chain k = c)
include hchain

theorem obeys_fetchLogs :
    Obeys Sys.calls (fetchSites cfg o c s.ix fromBlock toBlock) (fetchLogs cfg o fromBlock toBlock) s
      (fun logs t => logs = fetched cfg c (s.ix.knownPairs.toList.map Prod.fst) fromBlock toBlock ∧
        On (At s.ix s.db) t) (On (At s.ix s.db)) := by
  have hfirst : Obeys Sys.calls [harmless o false]
      (filterLogs o fromBlock toBlock [cfg.factoryAddress] [.pairCreated]) s
      (fun logs t => logs = c.filterLogs fromBlock toBlock [cfg.factoryAddress] [.pairCreated] ∧
        On (At s.ix s.db) t) (On (At s.ix s.db)) :=
    obeys_filterLogs (hchain s.calls) fun _ => ⟨rfl, rfl⟩
  rw [fetchSites]
  by_cases hnil : s.ix.knownPairs.toList.map Prod.fst ++
      announced (c.filterLogs fromBlock toBlock [cfg.factoryAddress] [.pairCreated]) = []
  · rw [if_pos hnil]
    refine Obeys.bind (v := []) hfirst fun factoryLogs t ht _ => ?_
    obtain ⟨rfl, hix, hdb⟩ := ht
    refine Obeys.bind (u := []) (Obeys.get (R := fun r t' => r = t ∧ t' = t) ⟨rfl, rfl⟩)
      fun r t' heq _ => ?_
    obtain ⟨rfl, rfl⟩ := heq
    rw [hix, if_pos hnil]
    refine Obeys.pure ⟨?_, hix, hdb⟩
    rw [fetched, hnil]
    simp [Chain.filterLogs]
  · rw [if_neg hnil]
    refine Obeys.bind (u := [_]) (v := [_]) hfirst fun factoryLogs t ht _ => ?_
    obtain ⟨rfl, hix, hdb⟩ := ht
    refine Obeys.bind (u := []) (Obeys.get (R := fun r t' => r = t ∧ t' = t) ⟨rfl, rfl⟩)
      fun r t' heq _ => ?_
    obtain ⟨rfl, rfl⟩ := heq
    rw [hix, if_neg hnil]
    refine Obeys.bind (v := []) (obeys_filterLogs (E := At s.ix s.db) (hchain _)
      fun _ => ⟨hix, hdb⟩) fun pairLogs u hu _ => ?_
    obtain ⟨rfl, huix, hudb⟩ := hu
    exact Obeys.pure ⟨rfl, huix.trans hix, hudb.trans hdb⟩

theorem obeys_closeRange (h : Told known done s.ix s.db) (horder : InOrder done []) :
    Obeys Sys.calls (closingSites cfg o known done c toBlock)
      (headerByNumber o toBlock >>= fun head => inBlockTx o (setCursor cfg o toBlock head)) s
      (fun _ => On (Told known done)) (On Mirrors) := by
  refine Obeys.bind (u := [_]) (v := [_, _, _]) (obeys_header (hchain s.calls)
    rfl (h.self_mirrors horder)) fun head t ht _ => ?_
  obtain ⟨-, hix, hdb⟩ := ht
  have htold : Told known done t.ix t.db := h.congr (congrArg _ hix) (congrArg _ hdb)
  change Obeys Sys.calls (_ :: ([_] ++ [_])) _ t _ _
  refine obeys_inBlockTx (htold.self_mirrors horder) (fun r hr _ => ?_)
    fun r n hr hsame => ?_
  · refine (obeys_setCursor (E := fun ix _ => Mirrors ix t.db) fun hsame => ?_).conseq
      (fun _ u hu => ?_) fun _ h => h
    · rw [hr.1]
      exact htold.self_mirrors horder hsame
    · have hpairs := congrArg Database.pairs hr.2
      rw [On, hu.1, hu.2]
      exact htold.congr (congrArg _ hr.1) hpairs
  · split
    · exact hr.self_mirrors horder hsame
    · exact Told.mirrors (by rw [List.append_nil]; exact hr) htold horder hsame

theorem indexLogs_mirrors (hnet : Chain.Network cfg chains) (hc : c ∈ chains) (h : Mirrors s.ix s.db)
    (hlogs : sortLogs logs = rangeLogs cfg c s.ix fromBlock toBlock)
    (hspared : Spared (tellSame s.ix.knownPairs (blocksLogs (rangeLogs cfg c s.ix fromBlock toBlock)
        (blockNums (rangeLogs cfg c s.ix fromBlock toBlock))) [] = true)
      (blocksSites cfg o s.ix.knownPairs c (rangeLogs cfg c s.ix fromBlock toBlock) [] s.ix s.calls
          (blockNums (rangeLogs cfg c s.ix fromBlock toBlock)) ++
        closingSites cfg o s.ix.knownPairs (blocksLogs (rangeLogs cfg c s.ix fromBlock toBlock)
          (blockNums (rangeLogs cfg c s.ix fromBlock toBlock))) c toBlock) s.calls) :
    On Mirrors (indexLogs cfg o toBlock logs s).2 := by
  have hintroduced : Introduced s.ix.knownPairs (blocksLogs (sortLogs logs) (blockNums (sortLogs logs))) := by
    rw [hlogs]
    exact rangeLogs_introduced hnet hc
  have horder : InOrder (blocksLogs (sortLogs logs) (blockNums (sortLogs logs))) [] := by
    refine .of_grow ((blocksLogs_pairwise (sortLogs_pairwise logs)).imp fun {l k} hnot => ?_)
    exact Nat.le_of_not_lt fun hlt => hnot (Or.inl hlt)
  have hall : Obeys Sys.calls _ (indexLogs cfg o toBlock logs) s _ (On Mirrors) :=
    Obeys.bind (obeys_blocks hchain (blockNums_pairwise _) List.Pairwise.nil
      (fun _ hl => (List.not_mem_nil hl).elim) hintroduced (Told.initial h))
      fun _ t ht _ => obeys_closeRange hchain ht horder
  rw [← hlogs] at hspared
  obtain ⟨hok, herr⟩ := hall _ hspared
  rcases hrun : indexLogs cfg o toBlock logs s with ⟨e | u, t⟩
  · exact herr e t hrun
  · obtain ⟨-, htold, hsame⟩ := hok u t hrun
    exact htold.self_mirrors horder hsame

theorem processRange_mirrors (hnet : Chain.Network cfg chains) (hc : c ∈ chains) (h : Mirrors s.ix s.db)
    (hspared : RangeSpared cfg o c s.ix fromBlock toBlock s.calls) :
    On Mirrors (processRange cfg o fromBlock toBlock s).2 := by
  rw [RangeSpared, spared_append] at hspared
  obtain ⟨hok, herr⟩ := obeys_fetchLogs hchain _ hspared
  rcases hrun : fetchLogs cfg o fromBlock toBlock s with ⟨e | logs, t⟩
  · have hgo : processRange cfg o fromBlock toBlock s = refused e t := by
      simp only [processRange, Prog.attempt, bind, hrun]
    obtain ⟨hix, hdb⟩ := herr e t hrun
    rw [hgo]
    refine refused_mirrors.state ?_
    rw [On, hix, hdb]
    exact h
  · have hgo : processRange cfg o fromBlock toBlock s = indexLogs cfg o toBlock logs t := by
      simp only [processRange, Prog.attempt, bind, hrun]
    obtain ⟨hcalls, ⟨rfl, hix, hdb⟩, hrest⟩ := hok logs t hrun
    rw [hgo]
    rw [← hcalls, ← hix] at hrest
    refine indexLogs_mirrors hchain hnet hc (by rw [hix, hdb]; exact h) ?_ hrest
    rw [rangeLogs, hix]

end Range

section Check

variable {m : Nat}

theorem obeys_startBlock (h : Mirrors s.ix s.db) :
    Obeys Sys.calls [harmless o false] (startBlock cfg o) s
      (fun n t => n = nextBlock cfg s.db ∧ On (At s.ix s.db) t) (On Mirrors) := by
  refine Obeys.bind (u := [_]) (v := []) (obeys_query fun _ => h) fun st t ht _ => ?_
  obtain ⟨rfl, hat⟩ := ht
  rw [nextBlock]
  rcases s.db.indexerState[cfg.chainID]? with _ | st
  · exact Obeys.pure ⟨rfl, hat⟩
  · exact Obeys.pure ⟨rfl, hat⟩

theorem mirrors_of_eq (hkeyed : PairsKeyed db) (h : ix.knownPairs = db.pairs) : Mirrors ix db := by
  refine ⟨fun a => ?_, hkeyed⟩
  rw [h]

theorem obeys_reloadPairs {spares : Nat → Bool} (hkeyed : PairsKeyed s.db)
    (hspares : spares s.calls = true → s.db.pairs = ∅) :
    Obeys Sys.calls [site o false spares] (reloadPairs o) s
      (fun _ => On (At { s.ix with knownPairs := s.db.pairs } s.db)) (On Mirrors) := by
  refine Obeys.bind (u := []) (Obeys.modify (R := fun _ t =>
    On (At { s.ix with knownPairs := ∅ } s.db) t ∧ t.calls = s.calls) rfl ⟨⟨rfl, rfl⟩, rfl⟩)
      fun _ t ht _ => ?_
  obtain ⟨⟨hix, hdb⟩, hcalls⟩ := ht
  refine Obeys.bind (u := [_]) (v := []) (obeys_query (E := Mirrors) fun hempty => ?_)
    fun pairs r hr _ => ?_
  · rw [hcalls] at hempty
    rw [hix, hdb]
    exact mirrors_of_eq hkeyed (hspares hempty).symm
  · obtain ⟨rfl, hrix, hrdb⟩ := hr
    refine Obeys.modify rfl ?_
    rw [On, hrix, hix, hrdb, hdb]
    exact ⟨loadPairs_rows s.ix hkeyed, rfl⟩

theorem deleteWhere_of_le (hall : (db.pairs.rows.all fun p => p.createdBlock ≤ m) = true) :
    db.pairs.deleteWhere (fun _ p => m + 1 ≤ p.createdBlock) = db.pairs := by
  refine Std.ExtTreeMap.ext_getElem? fun a => Option.ext fun p => ?_
  rw [Table.get_deleteWhere]
  refine and_iff_left_of_imp fun hp => ?_
  have hle := of_decide_eq_true (List.all_eq_true.mp hall p (Table.mem_rows.mpr ⟨a, hp⟩))
  exact decide_eq_false (by omega)

theorem deleteWhere_of_lt (hall : (db.pairs.rows.all fun p => m < p.createdBlock) = true) :
    db.pairs.deleteWhere (fun _ p => m + 1 ≤ p.createdBlock) = ∅ := by
  refine Std.ExtTreeMap.ext_getElem? fun a => Option.ext fun p => ?_
  rw [Table.get_deleteWhere]
  refine iff_of_false (fun ⟨hp, hkeep⟩ => ?_) (by simp)
  have hlt := of_decide_eq_true (List.all_eq_true.mp hall p (Table.mem_rows.mpr ⟨a, hp⟩))
  exact of_decide_eq_false hkeep (by omega)

theorem onChain_iff {n : Nat} {b : Block} {hash : Word} (hb : c.headerAt n = some b) :
    onChain c n hash = true ↔ b.hash = hash := by
  rw [onChain, hb]
  exact decide_eq_true_iff

variable (hchain : ∀ k, o.chain k = c)
include hchain

theorem obeys_walkBack (n : Nat) (h : Mirrors s.ix s.db) :
    Obeys Sys.calls (walkSites cfg o c s.db n) (walkBack cfg o n) s
      (fun m t => m = ancestorOf cfg c s.db n ∧ On (At s.ix s.db) t) (On Mirrors) := by
  induction n generalizing s with
  | zero => exact Obeys.pure ⟨rfl, rfl, rfl⟩
  | succ n ih =>
    rw [walkSites, walkBack, ancestorOf]
    split
    · exact Obeys.pure ⟨rfl, rfl, rfl⟩
    · refine Obeys.bind (u := [_]) (obeys_query fun _ => h) fun stored t ht _ => ?_
      obtain ⟨rfl, hix, hdb⟩ := ht
      have hrest : ∀ r : Sys, On (At s.ix s.db) r → Obeys Sys.calls (walkSites cfg o c s.db n)
          (walkBack cfg o n) r (fun m u => m = ancestorOf cfg c s.db n ∧ On (At s.ix s.db) u)
          (On Mirrors) := by
        rintro r ⟨hrix, hrdb⟩
        rw [← hrix, ← hrdb] at h ⊢
        exact ih h
      rcases hstored : s.db.blockHash n with _ | stored
      · exact hrest t ⟨hix, hdb⟩
      · have hread : Obeys Sys.calls [harmless o (c.headerAt n).isNone] (headerByNumber o n) t
            (fun b r => c.headerAt n = some b ∧ On (At t.ix t.db) r) (On Mirrors) :=
          obeys_header (hchain t.calls) rfl fun _ => by rw [hix, hdb]; exact h
        refine Obeys.bind (v := if onChain c n stored = true then [] else walkSites cfg o c s.db n)
          hread fun b r hr _ => ?_
        obtain ⟨hb, hrix, hrdb⟩ := hr
        dsimp only
        by_cases hhash : b.hash = stored
        · rw [if_pos hhash, if_pos ((onChain_iff hb).mpr hhash), if_pos ((onChain_iff hb).mpr hhash)]
          exact Obeys.pure ⟨rfl, hrix.trans hix, hrdb.trans hdb⟩
        · rw [if_neg hhash, if_neg (hhash ∘ (onChain_iff hb).mp), if_neg (hhash ∘ (onChain_iff hb).mp)]
          exact hrest r ⟨hrix.trans hix, hrdb.trans hdb⟩

/-- The pairs that a rollback leaves. -/
def Remains (cfg : Config) (db : Database) (m : Nat) (db' : Database) : Prop :=
  db'.pairs = db.pairs.deleteWhere (fun _ p => m + 1 ≤ p.createdBlock) ∧ nextBlock cfg db' = m + 1

theorem obeys_writeRollback :
    Obeys Sys.calls
      ((Database.rollbackFrom (m + 1)).map (fun statement => harmless o (!statement.allowed s.db)) ++
        [harmless o (c.headerAt m).isNone, cursorSite cfg o m fun _ => true])
      (Prog.forEach (exec o) (Database.rollbackFrom (m + 1)) >>= fun _ =>
        headerByNumber o m >>= fun h => setCursor cfg o m h) s
      (fun _ => On fun ix db => ix = s.ix ∧ Remains cfg s.db m db) (On fun ix _ => ix = s.ix) := by
  have hallowed : ∀ st ∈ Database.rollbackFrom (m + 1), ∀ d : Database, True →
      st.allowed d = st.allowed s.db ∧ True := by
    intro st hst d _
    simp only [Database.rollbackFrom, List.mem_cons, List.not_mem_nil, or_false] at hst
    rcases hst with rfl | rfl | rfl | rfl | rfl | rfl | rfl <;> exact ⟨rfl, True.intro⟩
  refine Obeys.bind (v := [_, _]) (obeys_execAll (f := fun st => st) (E := fun ix => ix = s.ix)
    (P := fun _ => True) hallowed True.intro fun _ => rfl) fun _ t ht _ => ?_
  obtain ⟨hix, hrun⟩ := ht
  rw [List.map_id'] at hrun
  refine Obeys.bind (u := [_]) (v := [_]) (obeys_header (E := fun ix _ => ix = s.ix)
    (hchain t.calls) rfl fun _ => hix) fun b r hr _ => ?_
  obtain ⟨-, hrix, hrdb⟩ := hr
  refine (obeys_setCursor (E := fun ix _ => ix = s.ix) fun _ => hrix.trans hix).conseq
    (fun _ u hu => ?_) fun _ h => h
  refine ⟨hu.1.trans (hrix.trans hix), ?_, ?_⟩
  · rw [hu.2, hrdb, ← (rollback_fields hrun).2.2.2.1]
    rfl
  · rw [hu.2]
    exact nextBlock_of_some (cursorAt_effect cfg m b r.db)

/-- The rollback, and then the pairs that are left. -/
theorem obeys_rollback (h : Mirrors s.ix s.db) :
    Obeys Sys.calls (rollbackSites cfg o c s.db m) (rollBackTo cfg o m >>= fun _ => reloadPairs o) s
      (fun _ => On fun ix db => ix = { s.ix with
          knownPairs := s.db.pairs.deleteWhere fun _ p => m + 1 ≤ p.createdBlock } ∧
        Mirrors ix db ∧ nextBlock cfg db = m + 1) (On Mirrors) := by
  have hkeyed : ∀ db, Remains cfg s.db m db → PairsKeyed db := fun db hleft a p hp => by
    rw [hleft.1, Table.get_deleteWhere] at hp
    exact h.keyed a p hp.1
  have htx : Obeys Sys.calls (harmless o false ::
      (((Database.rollbackFrom (m + 1)).map (fun statement => harmless o (!statement.allowed s.db)) ++
        [harmless o (c.headerAt m).isNone, cursorSite cfg o m fun _ => true]) ++
        [site o false fun k => !o.lost k || s.db.pairs.rows.all fun p => p.createdBlock ≤ m]))
      (rollBackTo cfg o m) s (fun _ => On fun ix db => ix = s.ix ∧ Remains cfg s.db m db) (On Mirrors) := by
    refine obeys_inBlockTx (fun _ => h) (fun t ht _ => ?_) fun t n ht hspared => ?_
    · obtain ⟨hix, hdb⟩ := ht
      rw [← hix, ← hdb]
      refine (obeys_writeRollback hchain).conseq (fun _ r hr => hr) fun r hr => ?_
      rw [On, hr, hix, hdb]
      exact h
    · obtain ⟨hix, hleft⟩ := ht
      rw [hix]
      split
      · -- The rollback is made, but checkReorg does not get as far as the reload.
        rename_i hlost
        rw [hlost, Bool.not_true, Bool.false_or] at hspared
        have hsame : t.db.pairs = s.db.pairs := by rw [hleft.1, deleteWhere_of_le hspared]
        refine ⟨fun a => ?_, hkeyed t.db hleft⟩
        rw [hsame]
        exact h.pairs a
      · exact h
  have hsites : rollbackSites cfg o c s.db m = (harmless o false ::
      (((Database.rollbackFrom (m + 1)).map (fun statement => harmless o (!statement.allowed s.db)) ++
        [harmless o (c.headerAt m).isNone, cursorSite cfg o m fun _ => true]) ++
        [site o false fun k => !o.lost k || s.db.pairs.rows.all fun p => p.createdBlock ≤ m])) ++
      [site o false fun _ => s.db.pairs.rows.all fun p => m < p.createdBlock] := by
    simp [rollbackSites]
  rw [hsites]
  refine Obeys.bind htx fun _ t ht _ => ?_
  obtain ⟨hix, hleft⟩ := ht
  refine (obeys_reloadPairs (hkeyed t.db hleft) fun hempty => ?_).conseq (fun _ r hr => ?_)
    fun _ h => h
  · rw [hleft.1, deleteWhere_of_lt hempty]
  · rw [On, hr.1, hr.2, hix, hleft.1]
    exact ⟨rfl, mirrors_of_eq (hkeyed t.db hleft) hleft.1.symm, hleft.2⟩

/-- The check for a reorganisation. -/
theorem obeys_checkReorg (h : Mirrors s.ix s.db) :
    Obeys Sys.calls (checkSites cfg o c s.db) (checkReorg cfg o) s
      (fun _ => On fun ix db => checked cfg c s.ix s.db = (ix, nextBlock cfg db) ∧ Mirrors ix db)
      (On Mirrors) := by
  rw [checkSites, checkReorg, checked]
  have hquery : Obeys Sys.calls [harmless o false] (query o fun db => db.indexerState[cfg.chainID]?) s
      (fun st t => st = s.db.indexerState[cfg.chainID]? ∧ On (At s.ix s.db) t) (On Mirrors) :=
    obeys_query fun _ => h
  rcases hst : s.db.indexerState[cfg.chainID]? with _ | st
  · rw [hst] at hquery
    refine Obeys.bind (v := []) hquery fun st t ht _ => ?_
    obtain ⟨rfl, hix, hdb⟩ := ht
    refine Obeys.pure ?_
    have hnext : nextBlock cfg t.db = cfg.factoryDeployBlock := by rw [hdb, nextBlock, hst]
    rw [On, hix, hnext, hdb]
    exact ⟨rfl, h⟩
  · rw [hst] at hquery
    refine Obeys.bind (u := [_]) hquery fun st' t ht _ => ?_
    obtain ⟨rfl, hix, hdb⟩ := ht
    have hat : Mirrors t.ix t.db := by rw [hix, hdb]; exact h
    refine Obeys.bind (u := [_]) (v := if onChain c st.lastProcessedBlock st.lastProcessedBlockHash = true
        then [] else walkSites cfg o c s.db st.lastProcessedBlock ++
          rollbackSites cfg o c s.db (ancestorOf cfg c s.db st.lastProcessedBlock))
      (obeys_header (hchain t.calls) rfl fun _ => hat) fun current r hr _ => ?_
    obtain ⟨hb, hrix, hrdb⟩ := hr
    dsimp only
    by_cases hhash : current.hash = st.lastProcessedBlockHash
    · rw [if_pos hhash, if_pos ((onChain_iff hb).mpr hhash)]
      refine Obeys.pure ?_
      rw [if_pos ((onChain_iff hb).mpr hhash)]
      have hnext : nextBlock cfg r.db = st.lastProcessedBlock + 1 := by
        rw [hrdb, hdb, nextBlock_of_some hst]
      rw [On, hnext, hrix, hix, hrdb, hdb]
      exact ⟨rfl, h⟩
    · rw [if_neg hhash, if_neg (hhash ∘ (onChain_iff hb).mp)]
      have hrat : At s.ix s.db r.ix r.db := ⟨hrix.trans hix, hrdb.trans hdb⟩
      have hrmirrors : Mirrors r.ix r.db := by rw [hrat.1, hrat.2]; exact h
      rw [← hrat.1, ← hrat.2]
      refine Obeys.bind (obeys_walkBack hchain _ hrmirrors) fun m u hu _ => ?_
      obtain ⟨rfl, huix, hudb⟩ := hu
      have humirrors : Mirrors u.ix u.db := by rw [huix, hudb]; exact hrmirrors
      rw [← huix, ← hudb]
      refine (obeys_rollback hchain humirrors).conseq (fun _ v hv => ?_) fun _ h => h
      obtain ⟨hvix, hvmirrors, hvnext⟩ := hv
      rw [if_neg (hhash ∘ (onChain_iff hb).mp), On, hvix, hvnext]
      exact ⟨rfl, hvix ▸ hvmirrors⟩

theorem tick_mirrors {chains : Set Chain} (hnet : Chain.Network cfg chains) (hc : c ∈ chains)
    (h : Mirrors ix db) (hspared : TickSpared cfg o c ix db) :
    On Mirrors (tick cfg o ⟨ix, db, 0⟩).2 := by
  rw [TickSpared, spared_append] at hspared
  refine (obeys_blockNumber (hchain 0) fun _ => h).run hspared fun head s hs hcalls hrest => ?_
  obtain ⟨rfl, hix, hdb⟩ := hs
  obtain rfl : ix = s.ix := hix.symm
  obtain rfl : db = s.db := hdb.symm
  rw [spared_append, ← show s.calls = 0 + [harmless o false].length from hcalls] at hrest
  refine (obeys_checkReorg hchain h).run hrest fun _ t ht hcheck hlast => ?_
  obtain ⟨hchecked, hmirrors⟩ := ht
  rw [← hcheck, hchecked] at hlast
  refine (obeys_startBlock hmirrors).run hlast fun fromBlock r hr hstart hrange => ?_
  obtain ⟨rfl, hrix, hrdb⟩ := hr
  rw [← hrdb]
  rw [← hrix, ← hrdb] at hmirrors hrange
  have hat : r.calls = ([harmless o false] ++ (checkSites cfg o c s.db ++ [harmless o false])).length := by
    rw [hstart, hcheck, hcalls, List.length_append, List.length_append]
    simp only [List.length_singleton]
    omega
  rw [← hat] at hrange
  by_cases hlt : safeBlock cfg c.headNumber < nextBlock cfg r.db
  · rw [if_pos hlt]
    exact hmirrors
  · rw [if_neg hlt]
    exact processRange_mirrors hchain hnet hc hmirrors (hrange (Nat.le_of_not_lt hlt))

end Check

end Indexer

namespace Process

open Indexer

variable {cfg : Config} {chains : Set Chain} {steps : List Step} {p : Process}

/-- A Tick whose first call that fails, if any does, fails where it does no harm. -/
def Kept (cfg : Config) (p : Process) : Step → Prop
  | .tick o => ∀ ix, p.memory = some ix → TickSpared cfg o (o.chain 0) ix p.db
  | .restart _ => True

instance Kept.decidable (cfg : Config) : ∀ p s, Decidable (Kept cfg p s)
  | p, .tick _ => inferInstanceAs (Decidable (∀ ix, p.memory = some ix → _))
  | _, .restart _ => .isTrue trivial

structure Mirrored (p : Process) : Prop where
  keyed : PairsKeyed p.db
  memory : ∀ ix, p.memory = some ix → PairsMirror ix p.db

theorem Mirrored.step (hnet : Chain.Network cfg chains) {s : Step} (h : Mirrored p)
    (hsteady : Steady chains s) (hkept : Kept cfg p s) : Mirrored (step cfg p s) := by
  cases s with
  | tick o =>
    rw [Process.step]
    rcases hm : p.memory with _ | ix
    · exact h
    · have hmirrors := tick_mirrors hsteady.2 hnet hsteady.1 ⟨h.memory ix hm, h.keyed⟩ (hkept ix hm)
      refine ⟨hmirrors.keyed, fun ix' hix' => ?_⟩
      obtain rfl := Option.some.inj hix'
      exact hmirrors.pairs
  | restart o =>
    rcases step_restart cfg p o with heq | heq
    · rw [heq]
      exact ⟨h.keyed, fun ix hix => (by cases hix)⟩
    · rw [heq]
      refine ⟨h.keyed, fun ix hix => ?_⟩
      obtain rfl := Option.some.inj hix
      exact (mirrors_of_eq h.keyed (Table.foldl_insert_rows h.keyed)).pairs

/-- Along runs of such Ticks, and restarts, memory mirrors the table after each. -/
theorem run_pairs_mirrored (hnet : Chain.Network cfg chains) (hsteady : ∀ s ∈ steps, Steady chains s)
    (hkept : Run.Along (step cfg) (Kept cfg) initial steps) :
    ∀ ix, (Run.run (step cfg) initial steps).memory = some ix →
      PairsMirror ix (Run.run (step cfg) initial steps).db := by
  have hstart : Mirrored initial := by
    refine ⟨fun a p hp => ?_, fun ix hix => (by cases hix)⟩
    simp [initial, Database.empty] at hp
  exact (Run.run_inv_along Mirrored (fun _ _ hp hs => hp.step hnet hs.1 hs.2) hstart
    (hkept.and hsteady)).memory

section Fork

open GoInternal.Fork

/-- A Sync of the pair, in the block of that number and hash. -/
def synced (number : Nat) (hash r0 r1 : Word) : Log :=
  { address := 50, topic := some .sync, indexed := [], data := [r0, r1], blockNumber := number,
    txHash := hash + 1000, index := 0, blockHash := hash }

/-- Two blocks of a chain that has others beside it from block 2 on. -/
def fork (second third : Word) (logs later : List Log) : Chain :=
  trunk ++ [{ header := { number := 2, hash := second, parentHash := 101, timestamp := 3000 },
              logs := logs },
    { header := { number := 3, hash := third, parentHash := second, timestamp := 4000 },
      logs := later }]

def abandoned : Chain := fork 130 140 [] [synced 3 140 300 400]

def overtaking : Chain := fork 230 240 [synced 2 230 150 160] [synced 3 240 170 180]

def forks : Set Chain := {c | c ∈ [abandoned, overtaking]}

/-- The chain changes between two Ticks; calls of the Ticks before and after that fail. -/
def overtaken : List Step :=
  [.restart (outside (fun _ => abandoned) []), .tick (outside (fun _ => abandoned) [22]),
    .tick (outside (fun _ => abandoned) []), .tick (outside (fun _ => overtaking) [24]),
    .tick (outside (fun _ => overtaking) [])]

/-- The row still has the Sync of the old block 3 and refuses that of the new block 2. -/
theorem reorganised_pairs_mirrored :
    ∃ ix, (Run.run (step Fork.cfg) initial overtaken).memory = some ix ∧
      ix.knownPairs[(50 : Address)]?.map Pair.state = some (170, 180, some 3) ∧
      PairsMirror ix (Run.run (step Fork.cfg) initial overtaken).db := by
  have hnet : Chain.Network Fork.cfg forks := Chain.network_of_check (by decide +kernel)
  have hsteady : ∀ s ∈ overtaken, Steady forks s := by
    intro s hs
    simp only [overtaken, List.mem_cons, List.not_mem_nil, or_false] at hs
    rcases hs with rfl | rfl | rfl | rfl | rfl
    · exact True.intro
    · exact ⟨List.mem_cons_self, fun _ => rfl⟩
    · exact ⟨List.mem_cons_self, fun _ => rfl⟩
    · exact ⟨List.mem_cons_of_mem _ List.mem_cons_self, fun _ => rfl⟩
    · exact ⟨List.mem_cons_of_mem _ List.mem_cons_self, fun _ => rfl⟩
  have hpair : (Run.run (step Fork.cfg) initial overtaken).memory.map
      (fun ix => ix.knownPairs[(50 : Address)]?.map Pair.state) = some (some (170, 180, some 3)) := by
    decide +kernel
  obtain ⟨ix, hix, hstate⟩ := Option.map_eq_some_iff.mp hpair
  exact ⟨ix, hix, hstate, run_pairs_mirrored hnet hsteady (by decide +kernel) ix hix⟩

/-- The rollback is committed and the pairs are forgotten; then the reading of them
fails. -/
theorem interrupted_reload_parts :
    Chain.Network Fork.cfg Fork.chains ∧ SharedDeployment Fork.cfg Fork.chains ∧
      (∀ s ∈ (reorganised [16]).take 3, Steady Fork.chains s) ∧
      ∃ ix, (Run.run (step Fork.cfg) initial ((reorganised [16]).take 3)).memory = some ix ∧
        ¬PairsMirror ix (Run.run (step Fork.cfg) initial ((reorganised [16]).take 3)).db := by
  obtain ⟨ix, hix⟩ :
      ∃ ix, (Run.run (step Fork.cfg) initial ((reorganised [16]).take 3)).memory = some ix :=
    Option.isSome_iff_exists.mp (by decide +kernel)
  refine ⟨Fork.network, shared, fun s hs => steady _ s (List.mem_of_mem_take hs), ix, hix,
    fun h => ?_⟩
  have hmemory : (Run.run (step Fork.cfg) initial ((reorganised [16]).take 3)).memory.map
      (fun ix => ix.knownPairs[(50 : Address)]?.map Pair.state) = some none := by
    decide +kernel
  have hrow : (Run.run (step Fork.cfg) initial
      ((reorganised [16]).take 3)).db.pairs[(50 : Address)]?.map Pair.state = some (0, 0, none) := by
    decide +kernel
  rw [hix, Option.map_some, h 50, hrow] at hmemory
  cases hmemory

end Fork

end Process

end ArkSwap.GoInternal
