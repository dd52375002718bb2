import ArkSwap.IndexerCache
import ArkSwap.IndexerContent

/-! Reserves after a reorganisation: a rollback leaves them as they are, and the
replayed Syncs meet the guard against older blocks. -/

namespace ArkSwap.GoInternal

open Prog

/-- The reserves that a Sync log of a pair reports, with its height. -/
def syncOf (a : Address) (l : Log) : Option (Nat × Nat × Nat) :=
  if l.address = a ∧ l.topic = some .sync then
    (decodeSync l).map fun ev => (ev.reserve0, ev.reserve1, l.blockNumber)
  else none

def lastOf (a : Address) (logs : List Log) : Option (Nat × Nat × Nat) :=
  (logs.filterMap (syncOf a)).getLast?

/-- The last Sync of a pair from a height on and below another. -/
def Chain.lastSync (c : Chain) (a : Address) (m n : Nat) : Option (Nat × Nat × Nat) :=
  lastOf a ((List.range' m (n - m)).flatMap c.logsAt)

/-- A row whose last Sync is given. -/
def syncedState : Option (Nat × Nat × Nat) → Nat × Nat × Option Nat
  | none => (0, 0, none)
  | some s => (s.1, s.2.1, some s.2.2)

/-- What a guarded write makes of a row. -/
def settled (st : Nat × Nat × Option Nat) : Option (Nat × Nat × Nat) → Nat × Nat × Option Nat
  | none => st
  | some s => if st.2.2.all (· ≤ s.2.2) then (s.1, s.2.1, some s.2.2) else st

/-- Every pair holds what the last Sync of a chain up to a height reported. -/
def Database.ReservesAt (c : Chain) (n : Nat) (db : Database) : Prop :=
  ∀ (a : Address) row, db.pairs[a]? = some row → row.state = syncedState (c.lastSync a 0 (n + 1))

/-- Each pair from below a fork is synced again, at no lower height than last, or
holds already what it shall. -/
def Database.Recovers (c : Chain) (m n : Nat) (db : Database) : Prop :=
  ∀ (a : Address) row, db.pairs[a]? = some row → row.createdBlock ≤ m →
    (∀ s ∈ c.lastSync a (m + 1) (n + 1), row.lastSyncBlock.all (· ≤ s.2.2) = true) ∧
      (c.lastSync a (m + 1) (n + 1) = none → row.state = syncedState (c.lastSync a 0 (m + 1)))

instance {c : Chain} {n : Nat} {db : Database} : Decidable (db.ReservesAt c n) :=
  decidable_of_iff _ Table.forall_get.symm

instance {c : Chain} {m n : Nat} {db : Database} : Decidable (db.Recovers c m n) :=
  decidable_of_iff _ Table.forall_get.symm

variable {cfg : Config} {o : Outside} {c : Chain} {chains : Set Chain} {a : Address} {l : Log}
variable {logs : List Log} {header : Block} {ix ix' : Indexer} {base db db' : Database}
variable {tokens : List Token} {start k m n : Nat} {st : Nat × Nat × Option Nat}
variable {s s' : Option (Nat × Nat × Nat)}

section Syncs

theorem syncOf_eq_some {r : Nat × Nat × Nat} :
    syncOf a l = some r ↔ l.address = a ∧ l.topic = some .sync ∧
      ∃ ev, decodeSync l = some ev ∧ (ev.reserve0, ev.reserve1, l.blockNumber) = r := by
  rw [syncOf]
  split
  · rename_i h
    rw [Option.map_eq_some_iff]
    exact ⟨fun hev => ⟨h.1, h.2, hev⟩, fun hev => hev.2.2⟩
  · rename_i h
    exact ⟨fun hnone => (by cases hnone), fun hev => (h ⟨hev.1, hev.2.1⟩).elim⟩

theorem syncOf_of_topic (h : l.topic ≠ some .sync) : syncOf a l = none := if_neg fun hboth => h hboth.2

theorem lastOf_append {logs' : List Log} : lastOf a (logs ++ logs') = (lastOf a logs').or (lastOf a logs) := by
  rw [lastOf, List.filterMap_append, List.getLast?_append]
  rfl

theorem mem_of_lastOf {r : Nat × Nat × Nat} (h : lastOf a logs = some r) :
    ∃ l ∈ logs, syncOf a l = some r :=
  List.mem_filterMap.mp (List.mem_of_getLast? h)

theorem lastOf_eq_none : lastOf a logs = none ↔ ∀ l ∈ logs, syncOf a l = none := by
  rw [lastOf, List.getLast?_eq_none_iff, List.filterMap_eq_nil_iff]

theorem lastOf_dedup : lastOf a logs.dedup = lastOf a logs := by
  induction logs with
  | nil => rfl
  | cons l logs ih =>
    by_cases hl : l ∈ logs
    · rw [List.dedup_cons_of_mem hl, ih, lastOf, lastOf]
      rcases hs : syncOf a l with _ | r
      · rw [List.filterMap_cons_none hs]
      · rw [List.filterMap_cons_some hs]
        obtain ⟨x, xs, hxs⟩ := List.exists_cons_of_ne_nil (List.ne_nil_of_mem
          (List.mem_filterMap.mpr ⟨l, hl, hs⟩))
        rw [hxs, List.getLast?_cons_cons]
    · rw [List.dedup_cons_of_notMem hl]
      change lastOf a ([l] ++ logs.dedup) = lastOf a ([l] ++ logs)
      rw [lastOf_append, lastOf_append, ih]

theorem lastSync_split (hmk : m ≤ k) (hkn : k ≤ n) :
    c.lastSync a m n = (c.lastSync a k n).or (c.lastSync a m k) := by
  have hrange : List.range' m (n - m) = List.range' m (k - m) ++ List.range' k (n - k) := by
    obtain ⟨d, rfl⟩ := Nat.exists_eq_add_of_le hmk
    obtain ⟨e, rfl⟩ := Nat.exists_eq_add_of_le hkn
    rw [Nat.add_assoc, Nat.add_sub_cancel_left, Nat.add_sub_cancel_left, ← Nat.add_assoc,
      Nat.add_sub_cancel_left, ← List.range'_append_1]
  rw [Chain.lastSync, hrange, List.flatMap_append, lastOf_append]
  rfl

theorem lastSync_empty : c.lastSync a n n = none := by
  rw [Chain.lastSync, Nat.sub_self]
  rfl

theorem lastSync_one : c.lastSync a n (n + 1) = lastOf a (c.logsAt n) := by
  rw [Chain.lastSync, Nat.add_sub_cancel_left]
  change lastOf a (c.logsAt n ++ []) = _
  rw [List.append_nil]

theorem mem_of_lastSync {r : Nat × Nat × Nat} (hc : c.WellFormed cfg) (h : c.lastSync a m n = some r) :
    ∃ l, c.Emits l ∧ m ≤ l.blockNumber ∧ l.blockNumber < n ∧ syncOf a l = some r := by
  obtain ⟨l, hl, hs⟩ := mem_of_lastOf h
  obtain ⟨k, hk, hl⟩ := List.mem_flatMap.mp hl
  rw [List.mem_range'_1] at hk
  have hn := hc.blockNumber k l hl
  exact ⟨l, hc.emits hl, by omega, by omega, hs⟩

theorem lastSync_bounds {r : Nat × Nat × Nat} (hc : c.WellFormed cfg) (h : c.lastSync a m n = some r) :
    m ≤ r.2.2 ∧ r.2.2 < n := by
  obtain ⟨l, -, hm, hn, hs⟩ := mem_of_lastSync hc h
  obtain ⟨-, -, ev, -, rfl⟩ := syncOf_eq_some.mp hs
  exact ⟨hm, hn⟩

theorem relevant_of_syncOf {r : Nat × Nat × Nat} (ha : c.IsPair cfg a) (hl : c.Emits l)
    (hs : syncOf a l = some r) : c.Relevant cfg l := by
  obtain ⟨rfl, htopic, -⟩ := syncOf_eq_some.mp hs
  exact ⟨hl, Or.inr ⟨ha, .sync, by decide, htopic⟩⟩

theorem lastSync_quiet (hc : c.WellFormed cfg) (ha : c.IsPair cfg a) (hquiet : Indexer.Quiet cfg c m n) :
    c.lastSync a m n = none := by
  rcases h : c.lastSync a m n with _ | r
  · rfl
  · obtain ⟨l, hl, hm, hn, hs⟩ := mem_of_lastSync hc h
    exact (hquiet l (relevant_of_syncOf ha hl hs) hm hn).elim

theorem created_before_sync (hnet : Chain.Network cfg chains) (hc : c ∈ chains) {k : Log}
    {ev : PairCreated} (hk : c.Created cfg a k ev) (hl : c.Emits l) {r : Nat × Nat × Nat}
    (hs : syncOf a l = some r) : k.Before l := by
  obtain ⟨rfl, htopic, -⟩ := syncOf_eq_some.mp hs
  obtain ⟨k', ev', hk', hbefore⟩ := hnet.created_first c hc c hc l hl ⟨k, ev, hk⟩ ⟨.sync, by decide, htopic⟩
  rw [(hnet.wellFormed c hc).created_once l.address k ev k' ev' hk hk']
  exact hbefore

theorem lastSync_before_created (hnet : Chain.Network cfg chains) (hc : c ∈ chains) {k : Log}
    {ev : PairCreated} (hk : c.Created cfg a k ev) (hn : n ≤ k.blockNumber) :
    c.lastSync a m n = none := by
  rcases h : c.lastSync a m n with _ | r
  · rfl
  · obtain ⟨l, hl, -, hlt, hs⟩ := mem_of_lastSync (hnet.wellFormed c hc) h
    have hle := (created_before_sync hnet hc hk hl hs).le
    omega

end Syncs

section Settled

theorem settled_or (h : ∀ x ∈ s, ∀ y ∈ s', x.2.2 ≤ y.2.2) :
    settled st (s'.or s) = settled (settled st s) s' := by
  rcases s' with _ | y
  · rfl
  · rcases s with _ | x
    · rfl
    · have hle := h x rfl y rfl
      change settled st (some y) = _
      rcases st with ⟨r0, r1, _ | last⟩
      · simp [settled, hle]
      · by_cases hx : last ≤ x.2.2
        · have hy : last ≤ y.2.2 := Nat.le_trans hx hle
          simp [settled, hx, hy, hle]
        · simp [settled, hx]

theorem settled_zero : settled (0, 0, none) s = syncedState s := by
  rcases s with _ | r <;> rfl

/-- A guarded write leaves what a last Sync reported just where the guard lets it
through, or nothing was written and nothing had to be. -/
theorem settled_eq_iff {older : Option (Nat × Nat × Nat)} :
    settled st s = syncedState (s.or older) ↔
      (∀ r ∈ s, st.2.2.all (· ≤ r.2.2) = true) ∧ (s = none → st = syncedState older) := by
  rcases s with _ | r
  · exact ⟨fun h => ⟨fun r hr => (by cases hr), fun _ => h⟩, fun h => h.2 rfl⟩
  · change ite _ _ _ = _ ↔ _
    split
    · rename_i h
      refine ⟨fun _ => ⟨fun r' hr' => ?_, fun hnone => (by cases hnone)⟩, fun _ => rfl⟩
      rwa [← Option.some.inj hr']
    · rename_i h
      refine ⟨fun heq => ?_, fun hall => (h (hall.1 r rfl)).elim⟩
      rw [heq] at h
      exact (h (by simp [syncedState])).elim

theorem guarded_state {p : Pair} {r0 r1 b : Nat} :
    (if p.lastSyncBlock.all (· ≤ b) then Database.setReserves r0 r1 b p else p).state =
      settled p.state (some (r0, r1, b)) := apply_ite Pair.state _ _ _

end Settled

namespace Indexer

section Rows

/-- A log settles the row of each pair with the Sync it is for that pair; the only row
it adds is that of the pair it creates. -/
theorem stepLog_rows (hstep : stepLog cfg header (ix, db) l = some (ix', db')) (a : Address) :
    (∀ row, db.pairs[a]? = some row →
        ∃ row', db'.pairs[a]? = some row' ∧ row'.state = settled row.state (syncOf a l)) ∧
      (db.pairs[a]? = none → ∀ row', db'.pairs[a]? = some row' → row'.state = (0, 0, none) ∧
        l.topic = some .pairCreated ∧ ∃ ev, decodePairCreated l = some ev ∧ ev.pair = a) := by
  have hstay : syncOf a l = none → db'.pairs = db.pairs → (∀ row, db.pairs[a]? = some row →
      ∃ row', db'.pairs[a]? = some row' ∧ row'.state = settled row.state (syncOf a l)) ∧
      (db.pairs[a]? = none → ∀ row', db'.pairs[a]? = some row' → row'.state = (0, 0, none) ∧
        l.topic = some .pairCreated ∧ ∃ ev, decodePairCreated l = some ev ∧ ev.pair = a) := by
    intro hs hsame
    rw [hs, hsame]
    refine ⟨fun row hrow => ⟨row, hrow, rfl⟩, fun hnone row' hrow' => ?_⟩
    rw [hnone] at hrow'
    cases hrow'
  rcases stepLog_cases hstep with ⟨hnothing, rfl, rfl⟩ | ⟨statement, ha, -, rfl⟩
  · refine hstay ?_ rfl
    rcases hs : syncOf a l with _ | r
    · rfl
    · obtain ⟨-, htopic, ev, hev, -⟩ := syncOf_eq_some.mp hs
      simp [applyLog, htopic, hev] at hnothing
  · cases ha with
    | created p hp =>
      obtain ⟨htopic, ev, hev, rfl⟩ := pairOf_eq_some.mp hp
      have hget : ((Database.upsertPair (createdPair header l ev)).effect db).pairs[a]? =
          if a = ev.pair ∧ db.pairs[ev.pair]? = none then
            some { createdPair header l ev with lastSyncBlock := none } else db.pairs[a]? :=
        Table.get_insertIfNew
      rw [hget, syncOf_of_topic (by rw [htopic]; decide)]
      refine ⟨fun row hrow => ?_, fun hnone row' hrow' => ?_⟩
      · rw [if_neg fun h => by rw [h.1, h.2] at hrow; cases hrow]
        exact ⟨row, hrow, rfl⟩
      · split at hrow'
        · rename_i h
          rw [← Option.some.inj hrow']
          exact ⟨rfl, htopic, ev, hev, h.1.symm⟩
        · rw [hnone] at hrow'
          cases hrow'
    | synced ev htopic hev =>
      have hget : ((Database.setPairReserves l.address ev.reserve0 ev.reserve1
          l.blockNumber).effect db).pairs[a]? = if a = l.address then db.pairs[l.address]?.map fun p =>
            if p.lastSyncBlock.all (· ≤ l.blockNumber) then
              Database.setReserves ev.reserve0 ev.reserve1 l.blockNumber p else p
          else db.pairs[a]? := Table.get_modify
      by_cases ha : a = l.address
      · rw [hget, if_pos ha, ← ha]
        have hs : syncOf a l = some (ev.reserve0, ev.reserve1, l.blockNumber) :=
          syncOf_eq_some.mpr ⟨ha.symm, htopic, ev, hev, rfl⟩
        rw [hs]
        refine ⟨fun row hrow => ?_, fun hnone row' hrow' => ?_⟩
        · rw [hrow]
          exact ⟨_, rfl, guarded_state⟩
        · rw [hnone] at hrow'
          cases hrow'
      · rw [hget, if_neg ha, syncOf, if_neg fun h => ha h.1.symm]
        refine ⟨fun row hrow => ⟨row, hrow, rfl⟩, fun hnone row' hrow' => ?_⟩
        rw [hnone] at hrow'
        cases hrow'
    | swapped s p hs hp =>
      have htopic := (swapOf_eq_some.mp hs).1
      exact hstay (syncOf_of_topic (by rw [htopic]; decide)) rfl
    | deposited e he =>
      refine hstay (syncOf_of_topic ?_) rfl
      obtain ⟨htopic | htopic, -⟩ := liquidityOf_fields he <;> rw [htopic] <;> decide

theorem covers_iff :
    Covers ix db ↔ ∀ a, db.pairs.contains a = true → ix.knownPairs.contains a = true := by
  constructor
  · intro h a ha
    rw [Std.ExtTreeMap.contains_eq_isSome_getElem?] at ha
    obtain ⟨row, hrow⟩ := Option.isSome_iff_exists.mp ha
    obtain ⟨p, hp⟩ := h a row hrow
    exact Table.contains_of_get hp
  · intro h a row hrow
    have ha := h a (Table.contains_of_get hrow)
    rw [Std.ExtTreeMap.contains_eq_isSome_getElem?] at ha
    exact Option.isSome_iff_exists.mp ha

theorem Covers.stepLog (h : Covers ix db)
    (hstep : Indexer.stepLog cfg header (ix, db) l = some (ix', db')) : Covers ix' db' := by
  rw [covers_iff] at h ⊢
  rcases stepLog_cases hstep with ⟨-, rfl, rfl⟩ | ⟨statement, ha, -, rfl⟩
  · exact h
  · intro a
    cases ha with
    | created p hp =>
      change (db.pairs.insertIfNew _ _).contains a = true → (ix.knownPairs.insert _ _).contains a = true
      rw [Table.contains_insertIfNew, Table.contains_insert, Bool.or_eq_true, Bool.or_eq_true]
      exact Or.imp_right (h a)
    | synced ev htopic hev =>
      change (db.pairs.modify _ _).contains a = true → (ix.knownPairs.modify _ _).contains a = true
      rw [Table.contains_modify, Table.contains_modify]
      exact h a
    | swapped s p hs hp => exact h a
    | deposited e he => exact h a

/-- The state of a row, if there is one. -/
def stateOf (db : Database) (a : Address) : Nat × Nat × Option Nat :=
  (db.pairs[a]?.map Pair.state).getD (0, 0, none)

/-- The rows of a database, each settled with the Syncs of a chain from a height on,
and the rows of the pairs that were created since. -/
structure Replayed (c : Chain) (base : Database) (start n : Nat) (db : Database) : Prop where
  started : start ≤ n
  stays : ∀ (a : Address) row, base.pairs[a]? = some row → ∃ row', db.pairs[a]? = some row'
  states : ∀ (a : Address) row, db.pairs[a]? = some row →
    row.state = settled (stateOf base a) (c.lastSync a start n)

theorem Replayed.congr (h : Replayed c base start n db) (hpairs : db'.pairs = db.pairs) :
    Replayed c base start n db' := by
  refine ⟨h.started, fun a row hrow => ?_, fun a row hrow => ?_⟩
  · rw [hpairs]
    exact h.stays a row hrow
  · rw [hpairs] at hrow
    exact h.states a row hrow

theorem lastOf_one : lastOf a [l] = syncOf a l := by
  rw [lastOf]
  rcases hs : syncOf a l with _ | r
  · rw [List.filterMap_cons_none hs]
    rfl
  · rw [List.filterMap_cons_some hs]
    rfl

theorem height_of_syncOf {r : Nat × Nat × Nat} (h : syncOf a l = some r) : r.2.2 = l.blockNumber := by
  obtain ⟨-, -, ev, -, rfl⟩ := syncOf_eq_some.mp h
  rfl

theorem stepLog_replayed {done : List Log} (hnet : Chain.Network cfg chains) (hc : c ∈ chains)
    (hrel : ∀ k ∈ done ++ [l], c.Relevant cfg k ∧ k.blockNumber = n)
    (hbefore : ∀ k ∈ done, ¬l.Before k)
    (hstays : ∀ (a : Address) row, base.pairs[a]? = some row → ∃ row', db.pairs[a]? = some row')
    (hstates : ∀ (a : Address) row, db.pairs[a]? = some row →
      row.state = settled (stateOf base a) ((lastOf a done).or (c.lastSync a start n)))
    (hstep : stepLog cfg header (ix, db) l = some (ix', db')) :
    (∀ (a : Address) row, base.pairs[a]? = some row → ∃ row', db'.pairs[a]? = some row') ∧
      ∀ (a : Address) row, db'.pairs[a]? = some row →
        row.state = settled (stateOf base a) ((lastOf a (done ++ [l])).or (c.lastSync a start n)) := by
  have hl := hrel l (List.mem_append_right done List.mem_cons_self)
  have hdone : ∀ k ∈ done, c.Relevant cfg k ∧ k.blockNumber = n := fun k hk =>
    hrel k (List.mem_append_left _ hk)
  refine ⟨fun a row hrow => ?_, fun a row' hrow' => ?_⟩
  · obtain ⟨old, hold⟩ := hstays a row hrow
    obtain ⟨row', hrow', -⟩ := (stepLog_rows hstep a).1 old hold
    exact ⟨row', hrow'⟩
  · rw [lastOf_append, lastOf_one, Option.or_assoc]
    rcases hold : db.pairs[a]? with _ | old
    · obtain ⟨hstate, htopic, ev, hev, rfl⟩ := (stepLog_rows hstep a).2 hold row' hrow'
      have hcreated := hl.1.created htopic hev
      have hbase : stateOf base ev.pair = (0, 0, none) := by
        rw [stateOf]
        rcases hrow : base.pairs[ev.pair]? with _ | row
        · rfl
        · obtain ⟨row₁, hrow₁⟩ := hstays ev.pair row hrow
          rw [hold] at hrow₁
          cases hrow₁
      have hnone : lastOf ev.pair done = none := lastOf_eq_none.mpr fun k hk => by
        rcases hs : syncOf ev.pair k with _ | r
        · rfl
        · exact (hbefore k hk (created_before_sync hnet hc hcreated (hdone k hk).1.1 hs)).elim
      rw [hstate, hbase, syncOf_of_topic (by rw [htopic]; decide), hnone,
        lastSync_before_created hnet hc hcreated hl.2.symm.le]
      rfl
    · obtain ⟨row₁, hrow₁, hstate⟩ := (stepLog_rows hstep a).1 old hold
      obtain rfl := Option.some.inj (hrow'.symm.trans hrow₁)
      rw [hstate, hstates a old hold]
      refine (settled_or fun x hx y hy => ?_).symm
      rw [height_of_syncOf hy, hl.2]
      rcases Option.or_eq_some_iff.mp hx with hx | ⟨-, hx⟩
      · obtain ⟨k, hk, hs⟩ := mem_of_lastOf hx
        rw [height_of_syncOf hs, (hdone k hk).2]
      · exact (lastSync_bounds (hnet.wellFormed c hc) hx).2.le

theorem stepLogs_replayed (done : List Log) (hnet : Chain.Network cfg chains) (hc : c ∈ chains)
    (hrel : ∀ k ∈ done ++ logs, c.Relevant cfg k ∧ k.blockNumber = n)
    (hsorted : (done ++ logs).Pairwise fun l k => ¬k.Before l)
    (hstays : ∀ (a : Address) row, base.pairs[a]? = some row → ∃ row', db.pairs[a]? = some row')
    (hstates : ∀ (a : Address) row, db.pairs[a]? = some row →
      row.state = settled (stateOf base a) ((lastOf a done).or (c.lastSync a start n)))
    (hfold : logs.foldlM (stepLog cfg header) (ix, db) = some (ix', db')) :
    (∀ (a : Address) row, base.pairs[a]? = some row → ∃ row', db'.pairs[a]? = some row') ∧
      ∀ (a : Address) row, db'.pairs[a]? = some row →
        row.state = settled (stateOf base a) ((lastOf a (done ++ logs)).or (c.lastSync a start n)) := by
  induction logs generalizing done ix db with
  | nil =>
    cases hfold
    rw [List.append_nil]
    exact ⟨hstays, hstates⟩
  | cons l logs ih =>
    rw [List.foldlM_cons] at hfold
    obtain ⟨⟨ix₁, db₁⟩, hstep, hrest⟩ := Option.bind_eq_some_iff.mp hfold
    rw [List.append_cons] at hrel hsorted ⊢
    have hbefore : ∀ k ∈ done, ¬l.Before k := fun k hk =>
      (List.pairwise_append.mp (List.pairwise_append.mp hsorted).1).2.2 k hk l List.mem_cons_self
    obtain ⟨hstays₁, hstates₁⟩ := stepLog_replayed hnet hc (fun k hk => hrel k (List.mem_append_left _ hk))
      hbefore hstays hstates hstep
    exact ih (done ++ [l]) hrel hsorted hstays₁ hstates₁ hrest

theorem Covers.stepLogs (h : Covers ix db)
    (hfold : logs.foldlM (Indexer.stepLog cfg header) (ix, db) = some (ix', db')) : Covers ix' db' :=
  stepLogs_inv (fun _ _ _ _ _ _ hcovers hstep => hcovers.stepLog hstep) h hfold

theorem Covers.mono (h : Covers ix db) (hknown : ∀ (a : Address) p, ix.knownPairs[a]? = some p →
    ∃ p', ix'.knownPairs[a]? = some p') : Covers ix' db := by
  intro a row hrow
  obtain ⟨p, hp⟩ := h a row hrow
  exact hknown a p hp

/-- Memory forgets no pair in a block, whether or not the block is committed. -/
theorem foldl_memoryLog_known {p : Pair} (hp : ix.knownPairs[a]? = some p) :
    ∃ p', (logs.foldl (memoryLog cfg header) ix).knownPairs[a]? = some p' := by
  induction logs generalizing ix p with
  | nil => exact ⟨p, hp⟩
  | cons l logs ih =>
    have hlog : ∃ p', (memoryLog cfg header ix l).knownPairs[a]? = some p' := by
      rw [memoryLog]
      rcases ha : applyLog cfg header ix l with _ | ⟨statement, ix₁⟩
      · exact ⟨p, hp⟩
      · exact applied_known (applied_of_applyLog ha) hp
    obtain ⟨p', hp'⟩ := hlog
    exact ih hp'

theorem Replayed.extend (hc : c.WellFormed cfg) (h : Replayed c base start m db) (hmn : m ≤ n)
    (hquiet : Quiet cfg c m n) (hpairs : ∀ (a : Address) row, db.pairs[a]? = some row → c.IsPair cfg a) :
    Replayed c base start n db := by
  refine ⟨Nat.le_trans h.started hmn, h.stays, fun a row hrow => ?_⟩
  rw [lastSync_split h.started hmn, lastSync_quiet hc (hpairs a row hrow) hquiet, Option.none_or]
  exact h.states a row hrow

theorem lastOf_block {full : Prop} (hc : c.WellFormed cfg) (h : BlockLogs full cfg c n header logs)
    (hall : ∀ l ∈ c.logsAt n, ∀ r, syncOf a l = some r → l ∈ logs) :
    lastOf a logs = c.lastSync a n (n + 1) := by
  have hlogs : logs.dedup = (c.logsAt n).filter (· ∈ logs.dedup) := by
    refine eq_filter_logsAt hc (List.nodup_dedup logs) (h.sorted.sublist (List.dedup_sublist logs))
      fun l hl => ?_
    obtain ⟨hrel, rfl⟩ := h.relevant l (List.mem_dedup.mp hl)
    exact hrel.1
  rw [← lastOf_dedup, hlogs, lastSync_one, lastOf, lastOf, List.filterMap_filter]
  refine congrArg List.getLast? (List.filterMap_congr fun l hl => ?_)
  split
  · rfl
  · rename_i hother
    rcases hs : syncOf a l with _ | r
    · rfl
    · exact (hother (decide_eq_true (List.mem_dedup.mpr (hall l hl r hs)))).elim

/-- The logs of a block that the index is about hold all Syncs of its pairs. -/
theorem lastOf_blockLogs (hc : c.WellFormed cfg) (h : BlockLogs True cfg c n header logs)
    (ha : c.IsPair cfg a) : lastOf a logs = c.lastSync a n (n + 1) :=
  lastOf_block hc h fun l hl _ hs =>
    h.all True.intro l (relevant_of_syncOf ha (hc.emits hl) hs) (hc.blockNumber n l hl)

theorem Replayed.block (hnet : Chain.Network cfg chains) (hc : c ∈ chains)
    (h : Replayed c base start n db) (hlogs : BlockLogs True cfg c n header logs)
    (hindexed : ∀ (a : Address) row, db'.pairs[a]? = some row → c.IsPair cfg a)
    (hrun : indexBlock cfg header n tokens logs (ix, db) = some (ix', db')) :
    Replayed c base start (n + 1) db' := by
  obtain ⟨db₁, db₂, hopen, hfold, hclose⟩ := indexBlock_eq_some hrun
  have hopened := h.congr (opening_rows hopen).pairs
  have hclosed := (closing_rows hclose).pairs
  obtain ⟨hstays, hstates⟩ := stepLogs_replayed [] hnet hc hlogs.relevant hlogs.sorted
    hopened.stays hopened.states hfold
  refine Replayed.congr ⟨Nat.le_succ_of_le h.started, hstays, fun a row hrow => ?_⟩ hclosed
  have ha := hindexed a row (by rw [hclosed]; exact hrow)
  rw [hstates a row hrow, List.nil_append, lastOf_blockLogs (hnet.wellFormed c hc) hlogs ha,
    lastSync_split h.started (Nat.le_succ n)]

end Rows

section Replay

/-- What the Ticks of a replay keep. -/
def Replaying (c : Chain) (cfg : Config) (base : Database) (start : Nat) (ix : Indexer) (db : Database) :
    Prop :=
  Replayed c base start (nextBlock cfg db) db ∧ Covers ix db

theorem Replaying.kept (hnet : Chain.Network cfg chains) (hc : c ∈ chains) :
    Kept True cfg o c (Replaying c cfg base start) where
  block bn header tokens logs ix db ix' db' h hindexed hnext hlogs hquiet hfetched hrun := by
    have hwf := hnet.wellFormed c hc
    have hnext' : nextBlock cfg db' = bn + 1 := nextBlock_of_some (indexBlock_cursor hrun)
    have hsound : Sound cfg c (bn + 1) db' := hindexed.sound.indexBlock
      (Nat.le_trans hindexed.deployed hnext) (Nat.le_succ_of_le hnext) hlogs.headerAt hlogs.number hlogs.relevant hrun
    have hextended := h.1.extend hwf hnext (hquiet True.intro) fun a row => hindexed.isPair
    refine ⟨?_, ?_⟩
    · rw [hnext']
      exact hextended.block hnet hc hlogs (fun a row => hsound.isPair) hrun
    · obtain ⟨db₁, db₂, hopen, hfold, hclose⟩ := indexBlock_eq_some hrun
      have hcovers : Covers (ix.loadTokens tokens) db₁ := by
        rw [Covers, (opening_rows hopen).pairs]
        exact h.2
      have hcovers' := hcovers.stepLogs hfold
      rw [Covers, ← (closing_rows hclose).pairs] at hcovers'
      exact hcovers'
  cursor n b ix db h hindexed hnext _ hquiet _ := by
    refine ⟨?_, h.2⟩
    rw [nextBlock_of_some (cursorAt_effect cfg n b db)]
    exact (h.1.extend (hnet.wellFormed c hc) hnext (hquiet True.intro) fun a row => hindexed.isPair).congr rfl
  batch ix db n h := h

theorem Replaying.left : Left cfg c (Replaying c cfg base start) (Replaying c cfg base start) where
  whole ix db h := h
  partly header tokens logs ix ix' db h _ hpart := by
    obtain ⟨done, -, rfl⟩ := hpart
    exact ⟨h.1, h.2.mono fun a p hp => foldl_memoryLog_known hp⟩

/-- The cursor is off a chain, with the highest block that a walk back may end at. -/
structure Forked (cfg : Config) (c : Chain) (db : Database) (st : IndexerState) (m : Nat) : Prop where
  cursor : db.indexerState[cfg.chainID]? = some st
  left : ∀ b, c.headerAt st.lastProcessedBlock = some b → b.hash ≠ st.lastProcessedBlockHash
  ancestor : IsGreatest {k | Ancestor cfg c db st.lastProcessedBlock k} m

variable {top : Nat} {t u : Sys} {cursor : IndexerState} {g : Chain}

theorem walkBack_highest (hsees : Sees o c top) (hn : n ≤ top)
    (hm : IsGreatest {k | Ancestor cfg c u.db n k} m) (hlow : m < n ∨ m = cfg.factoryDeployBlock)
    (hrun : walkBack cfg o n u = (.ok k, t)) : k = m := by
  have hmle := hm.1.le
  have hmdeploy := hm.1.deployed
  induction n generalizing u with
  | zero =>
    cases hrun
    omega
  | succ n ih =>
    rw [walkBack] at hrun
    by_cases hle : n + 1 ≤ cfg.factoryDeployBlock
    · rw [if_pos hle] at hrun
      cases hrun
      omega
    · rw [if_neg hle] at hrun
      have hmn : m ≤ n := by omega
      have hgreatest : ∀ r : Sys, r.db = u.db → IsGreatest {k | Ancestor cfg c r.db n k} m := by
        intro r hr
        rw [hr]
        exact ⟨{ hm.1 with le := hmn }, fun k hk => hm.2 hk.succ⟩
      obtain ⟨stored, u₁, hquery, hrest⟩ := bind_eq_ok.mp hrun
      obtain ⟨⟨-, hdb⟩, hstored⟩ := (query_triple (P := At u.ix u.db) u ⟨rfl, rfl⟩).1 stored u₁ hquery
      have hbelow : (∀ b b', u.db.blocks[n]? = some b → c.headerAt n = some b' → b'.hash ≠ b.hash) →
          m < n ∨ m = cfg.factoryDeployBlock := by
        intro hnone
        rcases Nat.lt_or_eq_of_le hmn with hlt | rfl
        · exact Or.inl hlt
        · rcases hm.1.stored with heq | ⟨b, b', hb, hb', hhash⟩
          · exact Or.inr heq
          · exact (hnone b b' hb hb' hhash).elim
      rw [hdb] at hstored
      rcases stored with _ | stored
      · refine ih (by omega) (hgreatest u₁ hdb) (hbelow fun b b' hb _ _ => ?_) hrest hmn
        rw [Database.blockHash, hb] at hstored
        cases hstored
      · obtain ⟨b, hb, rfl⟩ := Option.map_eq_some_iff.mp hstored.symm
        obtain ⟨h, u₂, hheader, hrest⟩ := bind_eq_ok.mp hrest
        obtain ⟨⟨-, hdb'⟩, k', hk'⟩ := (headerByNumber_triple (P := At u₁.ix u₁.db) u₁ ⟨rfl, rfl⟩).1 h u₂
          hheader
        rw [hsees.header (by omega)] at hk'
        by_cases hhash : h.hash = b.hash
        · rw [if_pos hhash] at hrest
          cases hrest
          have hhere : Ancestor cfg c u.db (k + 1) k :=
            ⟨Nat.le_succ k, by omega, Or.inr ⟨b, h, hb, hk', hhash⟩⟩
          exact Nat.le_antisymm (hm.2 hhere) hmn
        · rw [if_neg hhash] at hrest
          refine ih (by omega) (hgreatest u₂ (hdb'.trans hdb)) (hbelow fun b₁ b₂ hb₁ hb₂ => ?_) hrest hmn
          obtain rfl := Option.some.inj (hb.symm.trans hb₁)
          obtain rfl := Option.some.inj (hk'.symm.trans hb₂)
          exact hhash

/-- The stored blocks are not those of a chain that the cursor is off. -/
theorem Forked.low (hindexed : Indexed True cfg g db) (hfork : Forked cfg c db cursor m) :
    m < cursor.lastProcessedBlock ∨ m = cfg.factoryDeployBlock := by
  rcases Nat.lt_or_eq_of_le hfork.ancestor.1.le with hlt | rfl
  · exact Or.inl hlt
  · rcases hfork.ancestor.1.stored with heq | ⟨b, b', hb, hb', hhash⟩
    · exact Or.inr heq
    · obtain ⟨-, b₁, hb₁, hhash₁⟩ := hindexed.cursor cursor hfork.cursor
      obtain rfl := Option.some.inj ((hindexed.sound.blocks _ b hb).2.2.symm.trans hb₁)
      exact (hfork.left b' hb' (hhash.trans hhash₁)).elim

theorem RolledBack.pairs {m : Nat} (h : RolledBack cfg o m db db') :
    db'.pairs = db.pairs.deleteWhere fun _ p => m + 1 ≤ p.createdBlock := by
  obtain ⟨db₁, k, b, hrun, -, rfl⟩ := h
  exact (rollback_fields hrun).2.2.2.1

theorem recover_forked (hsees : Sees o c top) (htop : cursor.lastProcessedBlock ≤ top)
    (hindexed : Indexed True cfg g u.db) (hfork : Forked cfg c u.db cursor m)
    (hrun : recover cfg o cursor u = (.ok (), t)) :
    t.ix = { u.ix with knownPairs := t.db.pairs } ∧ RolledBack cfg o m u.db t.db := by
  obtain ⟨k, u₁, hwalk, hrest⟩ := bind_eq_ok.mp hrun
  obtain ⟨⟨hix, hdb⟩, -⟩ := (walkBack_triple hsees htop
    (hindexed.cursor cursor hfork.cursor).1 u ⟨rfl, rfl⟩).1 k u₁ hwalk
  obtain rfl := walkBack_highest hsees htop hfork.ancestor (hfork.low hindexed) hwalk
  obtain ⟨_, u₂, hroll, hreload⟩ := bind_eq_ok.mp hrest
  obtain ⟨hix₂, hrolled⟩ := (rollBackTo_triple u₁.ix u₁.db u₁ ⟨rfl, rfl⟩).1 () u₂ hroll
  rw [hdb] at hrolled
  have hkeys : ∀ (a : Address) p, u₂.db.pairs[a]? = some p → p.address = a := by
    intro a p hp
    rw [hrolled.pairs] at hp
    exact hindexed.keys a p (Table.get_deleteWhere.mp hp).1
  obtain ⟨hix₃, hdb₃⟩ := (reloadPairs_triple u₂.ix u₂.db hkeys u₂ ⟨rfl, rfl⟩).1 () t hreload
  rw [hix₃, hdb₃, hix₂, hix]
  exact ⟨rfl, hrolled⟩

/-- Where the cursor is off the chain, the check is the recovery. -/
theorem checkReorg_recovers (hsees : Sees o c top) (htop : cursor.lastProcessedBlock ≤ top)
    (hfork : Forked cfg c u.db cursor m) (hrun : checkReorg cfg o u = (.ok (), t)) :
    ∃ r : Sys, r.ix = u.ix ∧ r.db = u.db ∧ recover cfg o cursor r = (.ok (), t) := by
  obtain ⟨found, u₁, hquery, hrest⟩ := bind_eq_ok.mp hrun
  obtain ⟨⟨hix, hdb⟩, hfound⟩ := (query_triple (P := At u.ix u.db) u ⟨rfl, rfl⟩).1 found u₁ hquery
  rw [hdb, hfork.cursor] at hfound
  subst hfound
  obtain ⟨b, u₂, hheader, hrest⟩ := bind_eq_ok.mp hrest
  obtain ⟨⟨hix', hdb'⟩, k, hk⟩ := (headerByNumber_triple (P := At u₁.ix u₁.db) u₁ ⟨rfl, rfl⟩).1 b u₂
    hheader
  rw [hsees.header htop] at hk
  rw [if_neg (hfork.left b hk)] at hrest
  exact ⟨u₂, hix'.trans hix, hdb'.trans hdb, hrest⟩

/-- A Tick on the chain that is indexed keeps what blocks, cursors and failures keep. -/
theorem tick_keeping {J : Indexer → Database → Prop} (hJ : Kept True cfg o c J) (hE : Left cfg c J J)
    (hnet : Chain.Network cfg {c}) (hsees : Sees o c top)
    (hsafe : safeBlock cfg (o.chain 0).headNumber ≤ top)
    (htop : ∀ st, db.indexerState[cfg.chainID]? = some st → st.lastProcessedBlock ≤ top)
    (hheld : Held True cfg {c} ix db) (hfits : Fits cfg ix db) (hcovers : Covers ix db) (h : J ix db) :
    On (fun ix db => Held True cfg {c} ix db ∧ J ix db) (tick cfg o ⟨ix, db, 0⟩).2 := by
  obtain ⟨g, hg, hindexed⟩ := hheld.indexed
  obtain rfl : g = c := hg
  have hsame : ∀ s, On (At ix db) s → On (fun ix db => Held True cfg {g} ix db ∧ J ix db) s := by
    rintro s ⟨hix, hdb⟩
    rw [On, hix, hdb]
    exact ⟨hheld, h⟩
  have htick : Triple (fun s => s = ⟨ix, db, 0⟩) (tick cfg o)
      (fun _ => On fun ix db => Held True cfg {g} ix db ∧ J ix db)
      (On fun ix db => Held True cfg {g} ix db ∧ J ix db) := by
    refine Triple.bind (Triple.conseq (blockNumber_first ix db) (fun _ hs => hs) (fun _ _ hs => hs)
      hsame) fun head => ?_
    rintro s ⟨hat, rfl⟩
    refine Triple.bind (Triple.conseq (checkReorg_same hsees hindexed htop) (fun _ hs => hs)
      (fun _ _ hs => hs) hsame) (fun _ => ?_) s hat
    refine Triple.conseq (advance_held hnet rfl hsees hsafe hJ hE) ?_ (fun _ _ hs => hs) fun _ hs => hs
    rintro t ⟨hix, hdb⟩
    rw [On, hix, hdb]
    exact ⟨⟨hindexed, hheld.genuine, hheld.batch, fun _ => hcovers, hfits⟩, h⟩
  exact htick.state rfl

theorem tick_forked (hnet : Chain.Network cfg chains) (hshared : SharedDeployment cfg chains)
    (hc : c ∈ chains) (hsees : Sees o c top) (hsafe : safeBlock cfg (o.chain 0).headNumber ≤ top)
    (htop : cursor.lastProcessedBlock ≤ top) (hheld : Held True cfg chains ix db)
    (hfits : Fits cfg ix db) (hfork : Forked cfg c db cursor m)
    (hrun : tick cfg o ⟨ix, db, 0⟩ = (.ok (), t)) :
    ∃ base, RolledBack cfg o m db base ∧ Indexed True cfg c base ∧ Held True cfg {c} t.ix t.db ∧
      Replaying c cfg base (m + 1) t.ix t.db := by
  obtain ⟨head, s₁, hhead, hrest⟩ := bind_eq_ok.mp hrun
  obtain ⟨⟨hix, hdb⟩, rfl⟩ := (blockNumber_first ix db _ rfl).1 head s₁ hhead
  obtain ⟨_, s₂, hcheck, hadvance⟩ := bind_eq_ok.mp hrest
  obtain ⟨r, hixr, hdbr, hrecover⟩ := checkReorg_recovers hsees htop (by rw [hdb]; exact hfork) hcheck
  rw [hix] at hixr
  rw [hdb] at hdbr
  obtain ⟨g, -, hindexed⟩ := hheld.indexed
  have hchecked := (recover_triple hnet hshared hc hsees hheld hfits hfork.cursor htop r
    ⟨hixr, hdbr⟩).1 () s₂ hrecover
  obtain ⟨hix₂, hrolled⟩ := recover_forked hsees htop (by rw [hdbr]; exact hindexed)
    (by rw [hdbr]; exact hfork) hrecover
  rw [hdbr] at hrolled
  have hpairs : s₂.ix.knownPairs = s₂.db.pairs := congrArg Indexer.knownPairs hix₂
  have hsingle : Chain.Network cfg {c} := hnet.subset fun _ h => h ▸ hc
  have hchecked' : Checked True cfg {c} c s₂.ix s₂.db := by
    refine ⟨hchecked.indexed, fun a p hp => ?_, hchecked.batch, hchecked.covers, hchecked.fits⟩
    rw [hpairs] at hp
    exact ⟨c, rfl, hchecked.indexed.isPair hp⟩
  have hnext : nextBlock cfg s₂.db = m + 1 := by
    obtain ⟨db₁, k, b, -, -, heq⟩ := hrolled
    rw [heq]
    exact nextBlock_of_some (cursorAt_effect cfg m b db₁)
  have hstart : Replaying c cfg s₂.db (m + 1) s₂.ix s₂.db := by
    refine ⟨⟨hnext.ge, fun a row hrow => ⟨row, hrow⟩, fun a row hrow => ?_⟩, hchecked.covers True.intro⟩
    rw [hnext, lastSync_empty, stateOf, hrow]
    rfl
  exact ⟨s₂.db, hrolled, hchecked.indexed, (advance_held hsingle rfl hsees hsafe
    (Replaying.kept hsingle rfl) Replaying.left s₂ ⟨hchecked', hstart⟩).1 () t hadvance⟩

end Replay

end Indexer

namespace Process

open Indexer

variable {p : Process} {history replay steps : List Step} {cursor : IndexerState}

/-- A Tick returns, and its range ends at a height that 64 bits hold. -/
def Returned (cfg : Config) (p : Process) : Step → Prop
  | .tick o => ∀ ix, p.memory = some ix →
      Fits cfg ix p.db ∧ Returns (tick cfg o) (fun _ _ => True) ⟨ix, p.db, 0⟩
  | .restart _ => True

instance : ∀ p s, Decidable (Returned cfg p s)
  | p, .tick _ => inferInstanceAs (Decidable (∀ ix, p.memory = some ix → _))
  | _, .restart _ => .isTrue trivial

/-- A Tick sees one chain as far as it reads, whichever calls fail, and its range
ends at a height that 64 bits hold. -/
def Watches (cfg : Config) (c : Chain) (p : Process) : Step → Prop
  | .tick o => Sees o c (reach cfg p.db o) ∧ ∀ ix, p.memory = some ix → Fits cfg ix p.db
  | .restart _ => True

theorem watches_of_returned {s : Step} (hsteady : Steady {c} s) (hreturned : Returned cfg p s) :
    Watches cfg c p s := by
  cases s with
  | tick o =>
    have hchain : ∀ k, o.chain k = c := fun k => (hsteady.2 k).trans hsteady.1
    exact ⟨fun k n _ => by rw [hchain k], fun ix hix => (hreturned ix hix).1⟩
  | restart o => exact True.intro

/-- The database is a replay on a chain, and memory knows its pairs. -/
structure OnReplay (cfg : Config) (c : Chain) (base : Database) (start : Nat) (p : Process) : Prop where
  indexed : Indexed True cfg c p.db
  replayed : Replayed c base start (nextBlock cfg p.db) p.db
  memory : ∀ ix, p.memory = some ix → Indexer.Held True cfg {c} ix p.db ∧ Covers ix p.db

theorem OnReplay.restart (hbatch : 0 < cfg.blockBatchSize) (h : OnReplay cfg c base start p)
    (o : Outside) : OnReplay cfg c base start (step cfg p (.restart o)) := by
  rcases step_restart cfg p o with heq | heq
  · rw [heq]
    exact ⟨h.indexed, h.replayed, fun ix hix => (by cases hix)⟩
  · rw [heq]
    refine ⟨h.indexed, h.replayed, fun ix hix => ?_⟩
    obtain rfl := Option.some.inj hix
    refine ⟨loaded_held rfl hbatch h.indexed, ?_⟩
    rw [Covers, loaded_pairs h.indexed.keys]
    exact fun a row hrow => ⟨row, hrow⟩

theorem OnReplay.tick (hnet : Chain.Network cfg {c}) (h : OnReplay cfg c base start p)
    (hwatches : Watches cfg c p (.tick o)) : OnReplay cfg c base start (step cfg p (.tick o)) := by
  rw [step]
  rcases hm : p.memory with _ | ix
  · exact h
  · obtain ⟨hsees, hfits⟩ := hwatches
    obtain ⟨hheld, hcovers⟩ := h.memory ix hm
    obtain ⟨hheld', hreplayed, hcovers'⟩ := tick_keeping (Replaying.kept hnet rfl) Replaying.left hnet
      hsees (Nat.le_max_right _ _) (fun st hst => reach_top hst) hheld (hfits ix hm) hcovers
      ⟨h.replayed, hcovers⟩
    obtain ⟨g, hg, hindexed⟩ := hheld'.indexed
    obtain rfl : g = c := hg
    refine ⟨hindexed, hreplayed, fun ix' hix' => ?_⟩
    obtain rfl := Option.some.inj hix'
    exact ⟨hheld', hcovers'⟩

theorem OnReplay.run (hnet : Chain.Network cfg {c}) (hbatch : 0 < cfg.blockBatchSize)
    (h : OnReplay cfg c base start p) (hwatches : Run.Along (step cfg) (Watches cfg c) p steps) :
    OnReplay cfg c base start (Run.run (step cfg) p steps) := by
  refine Run.run_inv_along (OnReplay cfg c base start) (fun p s hp hs => ?_) h hwatches
  cases s with
  | tick o => exact hp.tick hnet hs
  | restart o => exact hp.restart hbatch o

/-- Where a run has come to is a beginning as well. -/
theorem OnReplay.rebase (h : OnReplay cfg c base start p) :
    OnReplay cfg c p.db (nextBlock cfg p.db) p := by
  refine ⟨h.indexed, ⟨le_refl _, fun a row hrow => ⟨row, hrow⟩, fun a row hrow => ?_⟩, h.memory⟩
  rw [lastSync_empty, stateOf, hrow]
  rfl

theorem OnReplay.advances (hnet : Chain.Network cfg {c}) (hbatch : 0 < cfg.blockBatchSize)
    (h : OnReplay cfg c base start p) (hwatches : Run.Along (step cfg) (Watches cfg c) p steps) :
    nextBlock cfg p.db ≤ nextBlock cfg (Run.run (step cfg) p steps).db :=
  (h.rebase.run hnet hbatch hwatches).replayed.started

theorem onReplay_initial (hnet : Chain.Network cfg {c}) :
    OnReplay cfg c initial.db cfg.factoryDeployBlock initial := by
  have hnext : nextBlock cfg initial.db = cfg.factoryDeployBlock := by
    simp [nextBlock, initial, Database.empty]
  have hempty : ∀ (a : Address) row, initial.db.pairs[a]? = some row → False := by
    intro a row hrow
    simp [initial, Database.empty] at hrow
  exact ⟨indexed_empty True cfg c fun l hl => hnet.deployed rfl hl,
    ⟨hnext.ge, fun a row hrow => (hempty a row hrow).elim, fun a row hrow => (hempty a row hrow).elim⟩,
    fun ix hix => (by cases hix)⟩

/-- From scratch the rows hold the last Syncs below the cursor. -/
theorem OnReplay.synced (hnet : Chain.Network cfg {c})
    (h : OnReplay cfg c initial.db cfg.factoryDeployBlock p) {row : Pair}
    (hrow : p.db.pairs[a]? = some row) :
    row.state = syncedState (c.lastSync a 0 (nextBlock cfg p.db)) := by
  have hnone : stateOf initial.db a = (0, 0, none) := by
    simp [stateOf, initial, Database.empty]
  obtain ⟨l, ev, hl⟩ := h.indexed.isPair hrow
  rw [h.replayed.states a row hrow, hnone, settled_zero, lastSync_split (Nat.zero_le _) h.replayed.started,
    lastSync_before_created hnet rfl hl ((hnet.wellFormed c rfl).deployed l hl.emits hl.factory),
    Option.or_none]

/-- A replay ends with the reserves of its chain just where the rows it began with
allow that. -/
theorem OnReplay.reservesAt_iff (hnet : Chain.Network cfg {c}) (h : OnReplay cfg c base (m + 1) p)
    (hbase : Indexed True cfg c base) (hstart : nextBlock cfg base = m + 1)
    (hpairs : base.pairs = db.pairs.deleteWhere fun _ row => m + 1 ≤ row.createdBlock)
    (hnext : nextBlock cfg p.db = n + 1) : p.db.ReservesAt c n ↔ db.Recovers c m n := by
  have hmn : m + 1 ≤ n + 1 := by
    rw [← hnext]
    exact h.replayed.started
  have hrow : ∀ (a : Address) row, p.db.pairs[a]? = some row →
      (row.state = syncedState (c.lastSync a 0 (n + 1)) ↔
        (∀ s ∈ c.lastSync a (m + 1) (n + 1), (stateOf base a).2.2.all (· ≤ s.2.2) = true) ∧
          (c.lastSync a (m + 1) (n + 1) = none →
            stateOf base a = syncedState (c.lastSync a 0 (m + 1)))) := by
    intro a row hget
    have hstate := h.replayed.states a row hget
    rw [hnext] at hstate
    rw [hstate, lastSync_split (Nat.zero_le _) hmn]
    exact settled_eq_iff
  have hget : ∀ (a : Address) row, base.pairs[a]? = some row ↔
      db.pairs[a]? = some row ∧ row.createdBlock ≤ m := by
    intro a row
    rw [hpairs, Table.get_deleteWhere, decide_eq_false_iff_not, Nat.not_le, Nat.lt_succ_iff]
  constructor
  · intro hreserves a row₀ hrow₀ hcreated
    have hrow₀' := (hget a row₀).mpr ⟨hrow₀, hcreated⟩
    obtain ⟨row, hfinal⟩ := h.replayed.stays a row₀ hrow₀'
    have hsettles := (hrow a row hfinal).mp (hreserves a row hfinal)
    rw [stateOf, hrow₀'] at hsettles
    exact hsettles
  · intro hrecovers a row hfinal
    refine (hrow a row hfinal).mpr ?_
    rcases hrow₀ : base.pairs[a]? with _ | row₀
    · obtain ⟨l, ev, hl⟩ := h.indexed.isPair hfinal
      have hlate : m + 1 ≤ l.blockNumber := by
        by_contra hlt
        obtain ⟨b, hb⟩ := hl.emits.header
        have hentry : pairFeed.Entry cfg c l b (createdPair b l ev) :=
          ⟨⟨hl.emits, Or.inl ⟨hl.factory, hl.topic⟩⟩, hb, pairOf_eq_some.mpr ⟨hl.topic, ev, hl.decoded, rfl⟩⟩
        obtain ⟨row', hrow'⟩ := (hbase.complete True.intro).pairs l b _ hentry
          (by rw [Below, hstart]; omega)
        have haddress : pairFeed.keyOf (createdPair b l ev) = a := hl.pair
        rw [haddress, hrow₀] at hrow'
        cases hrow'
      rw [lastSync_before_created hnet rfl hl hlate, stateOf, hrow₀]
      exact ⟨fun _ _ => rfl, fun _ => rfl⟩
    · obtain ⟨hrow, hcreated⟩ := (hget a row₀).mp hrow₀
      rw [stateOf, hrow₀]
      exact hrecovers a row₀ hrow hcreated

/-- The steps after a fork: none has read the chain yet, or the index is a replay on it. -/
theorem run_forked (hnet : Chain.Network cfg chains) (hshared : SharedDeployment cfg chains)
    (hbatch : 0 < cfg.blockBatchSize) (hc : c ∈ chains) (hheld : Held True cfg chains p)
    (hfork : Forked cfg c p.db cursor m) (hsteady : ∀ s ∈ replay, Steady {c} s)
    (hreturned : Run.Along (step cfg) (Returned cfg) p replay) :
    (Run.run (step cfg) p replay).db = p.db ∨
      ∃ base, base.pairs = p.db.pairs.deleteWhere (fun _ row => m + 1 ≤ row.createdBlock) ∧
        Indexed True cfg c base ∧ nextBlock cfg base = m + 1 ∧
        OnReplay cfg c base (m + 1) (Run.run (step cfg) p replay) := by
  have hsingle : Chain.Network cfg {c} := hnet.subset fun _ h => h ▸ hc
  have hrun := Run.run_inv_along (fun q => (q.db = p.db ∧ Held True cfg chains q) ∨
    ∃ base, base.pairs = p.db.pairs.deleteWhere (fun _ row => m + 1 ≤ row.createdBlock) ∧
      Indexed True cfg c base ∧ nextBlock cfg base = m + 1 ∧ OnReplay cfg c base (m + 1) q)
    (fun q s hq hs => ?_) (Or.inl ⟨rfl, hheld⟩) (hreturned.and hsteady)
  · exact hrun.imp And.left id
  · rcases hq with ⟨hdb, hq⟩ | ⟨base, hpairs, hbase, hstart, hq⟩
    · cases s with
      | restart o =>
        refine Or.inl ⟨?_, hq.restart hbatch⟩
        rcases step_restart cfg q o with heq | heq <;> rw [heq] <;> exact hdb
      | tick o =>
        obtain ⟨hchain, hreturned⟩ := hs
        rw [step]
        rcases hm : q.memory with _ | ix
        · exact Or.inl ⟨hdb, hq⟩
        · obtain ⟨hfits, hreturns⟩ := hreturned ix hm
          obtain ⟨_, t, hrun, -⟩ := returns_iff.mp hreturns
          have hsees : Sees o c (reach cfg q.db o) := fun k n _ => by
            rw [(hchain.2 k).trans hchain.1]
          rw [← hdb] at hfork
          obtain ⟨base, hrolled, hbase, hheld', hreplayed, hcovers⟩ := tick_forked hnet hshared hc hsees
            (Nat.le_max_right _ _) (reach_top hfork.cursor) (hq.memory ix hm) hfits hfork hrun
          obtain ⟨g, hg, hindexed⟩ := hheld'.indexed
          obtain rfl : g = c := hg
          rw [← hdb]
          simp only [hrun]
          refine Or.inr ⟨base, hrolled.pairs, hbase, ?_, hindexed, hreplayed, fun ix' hix' => ?_⟩
          · obtain ⟨db₁, k, b, -, -, rfl⟩ := hrolled
            exact nextBlock_of_some (cursorAt_effect cfg m b db₁)
          · obtain rfl := Option.some.inj hix'
            exact ⟨hheld', hcovers⟩
    · refine Or.inr ⟨base, hpairs, hbase, hstart, ?_⟩
      cases s with
      | tick o => exact hq.tick hsingle (watches_of_returned hs.1 hs.2)
      | restart o => exact hq.restart hbatch o

/-- After any history and any fork, a replay without errors has the reserves of the
new chain exactly if each older pair is synced again, or was not synced above the fork. -/
theorem reserves_recover_iff (hnet : Chain.Network cfg chains) (hshared : SharedDeployment cfg chains)
    (hbatch : 0 < cfg.blockBatchSize) (hsteady : ∀ s ∈ history, Steady chains s)
    (hready : Run.Along (step cfg) (Ready cfg) initial history) (hc : c ∈ chains)
    (hfork : Forked cfg c (Run.run (step cfg) initial history).db cursor m)
    (hcalm : ∀ s ∈ replay, Steady {c} s)
    (hreturned : Run.Along (step cfg) (Returned cfg) (Run.run (step cfg) initial history) replay)
    {last : IndexerState} (hst : (Run.run (step cfg) initial
      (history ++ replay)).db.indexerState[cfg.chainID]? = some last) {b : Block}
    (hb : c.headerAt last.lastProcessedBlock = some b) (hhash : b.hash = last.lastProcessedBlockHash) :
    (Run.run (step cfg) initial (history ++ replay)).db.ReservesAt c last.lastProcessedBlock ↔
      (Run.run (step cfg) initial history).db.Recovers c m last.lastProcessedBlock := by
  have hboth : Run.Along (step cfg) (fun p s => Steady chains s ∧ Ready cfg p s) initial history :=
    hready.and hsteady
  have hheld : Held True cfg chains (Run.run (step cfg) initial history) := by
    refine run_held hnet hshared hbatch hc (fun p o hp => ?_) hboth
    obtain ⟨⟨hchain, hfixed⟩, hready⟩ := hp
    exact ⟨hchain, fun k n _ => by rw [hfixed k], fun _ ix hix => (hready ix hix).1,
      fun ix hix => (hready ix hix).2⟩
  rw [Run.run_append] at hst ⊢
  rcases run_forked hnet hshared hbatch hc hheld hfork hcalm hreturned with
    hsame | ⟨base, hpairs, hbase, hstart, hreplay⟩
  · rw [hsame, hfork.cursor] at hst
    obtain rfl := Option.some.inj hst
    exact (hfork.left b hb hhash).elim
  · exact hreplay.reservesAt_iff (hnet.subset fun _ h => h ▸ hc) hbase hstart hpairs
      (nextBlock_of_some hst)

/-- An index from scratch, without errors, holds the last Syncs of its chain. -/
theorem scratch_reserves (hnet : Chain.Network cfg {c}) (hbatch : 0 < cfg.blockBatchSize)
    (hcalm : ∀ s ∈ steps, Steady {c} s)
    (hreturned : Run.Along (step cfg) (Returned cfg) initial steps)
    (hst : (Run.run (step cfg) initial steps).db.indexerState[cfg.chainID]? = some cursor) :
    (Run.run (step cfg) initial steps).db.ReservesAt c cursor.lastProcessedBlock := by
  have hrun := (onReplay_initial hnet).run hnet hbatch
    ((hreturned.and hcalm).imp fun p s hs => watches_of_returned hs.1 hs.2)
  intro a row hrow
  rw [hrun.synced hnet hrow, nextBlock_of_some hst]

section Fork

open GoInternal.Fork

/-- Block 3 of a chain that has another block 3 beside it: the pair was synced in
block 2, below the fork. -/
def branch (hash : Word) (logs : List Log) : Chain :=
  trunk ++ [{ header := { number := 2, hash := 110, parentHash := 101, timestamp := 3000 },
              logs := [synced 2 110 100 200] },
    { header := { number := 3, hash := hash, parentHash := 110, timestamp := 4000 },
      logs := logs }]

def orphan : Chain := branch 120 [synced 3 120 300 400]

def silent : Chain := branch 220 []

def resynced : Chain := branch 320 [synced 3 320 500 600]

def branches : Set Chain := {c | c ∈ [orphan, silent, resynced]}

theorem branches_network : Chain.Network Fork.cfg branches := Chain.network_of_check (by decide +kernel)

theorem branches_shared : SharedDeployment Fork.cfg branches := by
  have h : ∀ c ∈ [orphan, silent, resynced], ∀ c' ∈ [orphan, silent, resynced],
      ∀ b ∈ c.headerAt Fork.cfg.factoryDeployBlock, ∀ b' ∈ c'.headerAt Fork.cfg.factoryDeployBlock,
      b.hash = b'.hash := by decide +kernel
  exact fun c hc c' hc' b b' hb hb' => h c hc c' hc' b hb b' hb'

/-- One restart, and one Tick that reads the chain to its head. -/
def indexing (c : Chain) : List Step :=
  [.restart (outside (fun _ => c) []), .tick (outside (fun _ => c) [])]

def orphaned : Process := Run.run (step Fork.cfg) initial (indexing orphan)

theorem indexing_steady (hc : c ∈ chains) : ∀ s ∈ indexing c, Steady chains s := by
  intro s hs
  simp only [indexing, List.mem_cons, List.not_mem_nil, or_false] at hs
  rcases hs with rfl | rfl
  · exact True.intro
  · exact ⟨hc, fun _ => rfl⟩

theorem forked_of_check (hst : db.indexerState[cfg.chainID]? = some cursor)
    (hleft : ∀ b ∈ c.headerAt cursor.lastProcessedBlock, b.hash ≠ cursor.lastProcessedBlockHash)
    (hm : m ≤ cursor.lastProcessedBlock ∧ cfg.factoryDeployBlock ≤ m)
    (hcommon : ∃ b ∈ db.blocks[m]?, ∃ b' ∈ c.headerAt m, b'.hash = b.hash)
    (hnone : ∀ k ≤ cursor.lastProcessedBlock, m < k →
      ∀ b ∈ db.blocks[k]?, ∀ b' ∈ c.headerAt k, b'.hash ≠ b.hash) :
    Forked cfg c db cursor m := by
  obtain ⟨b, hb, b', hb', hhash⟩ := hcommon
  refine ⟨hst, hleft, ⟨hm.1, hm.2, Or.inr ⟨b, b', hb, hb', hhash⟩⟩, fun k hk => ?_⟩
  by_contra hlt
  rcases hk.stored with rfl | ⟨b₁, b₁', hb₁, hb₁', hhash₁⟩
  · exact hlt hm.2
  · exact hnone k hk.le (Nat.lt_of_not_le hlt) b₁ hb₁ b₁' hb₁' hhash₁

theorem orphan_mem : orphan ∈ branches := List.mem_cons_self

/-- The pair is synced again on the new branch. -/
theorem resynced_reserves :
    (Run.run (step Fork.cfg) initial (indexing orphan ++ indexing resynced)).db.ReservesAt resynced 3 := by
  have hst : (Run.run (step Fork.cfg) initial
      (indexing orphan ++ indexing resynced)).db.indexerState[Fork.cfg.chainID]? =
        some { chainID := 1, lastProcessedBlock := 3, lastProcessedBlockHash := 320 } := by
    decide +kernel
  have hfork : Forked Fork.cfg resynced orphaned.db
      { chainID := 1, lastProcessedBlock := 3, lastProcessedBlockHash := 120 } 2 :=
    forked_of_check (by decide +kernel) (by decide +kernel) (by decide +kernel) (by decide +kernel)
      (by decide +kernel)
  have hmem : resynced ∈ branches := List.mem_cons_of_mem _ (List.mem_cons_of_mem _ List.mem_cons_self)
  exact (reserves_recover_iff branches_network branches_shared (by decide) (indexing_steady orphan_mem)
    (by decide +kernel) hmem hfork (indexing_steady rfl) (by decide +kernel) hst
    (b := { number := 3, hash := 320, parentHash := 110, timestamp := 4000 }) (by decide +kernel)
    rfl).mpr (by decide +kernel)

/-- The Sync of the orphaned block stays in the row of a pair that the new branch
does not sync. -/
theorem silent_keeps_orphan :
    Chain.Network Fork.cfg branches ∧ SharedDeployment Fork.cfg branches ∧ 0 < Fork.cfg.blockBatchSize ∧
      (∀ s ∈ indexing orphan, Steady branches s) ∧
      Run.Along (step Fork.cfg) (Ready Fork.cfg) initial (indexing orphan) ∧
      Forked Fork.cfg silent orphaned.db
        { chainID := 1, lastProcessedBlock := 3, lastProcessedBlockHash := 120 } 2 ∧
      Fork.cfg.factoryDeployBlock < 2 ∧
      (∀ s ∈ indexing silent, Steady {silent} s) ∧
      Run.Along (step Fork.cfg) (Returned Fork.cfg) orphaned (indexing silent) ∧
      (Run.run (step Fork.cfg) orphaned (indexing silent)).db.indexerState[Fork.cfg.chainID]? =
        some { chainID := 1, lastProcessedBlock := 3, lastProcessedBlockHash := 220 } ∧
      silent.headerAt 3 = some { number := 3, hash := 220, parentHash := 110, timestamp := 4000 } ∧
      ¬(Run.run (step Fork.cfg) orphaned (indexing silent)).db.ReservesAt silent 3 :=
  ⟨branches_network, branches_shared, by decide, indexing_steady orphan_mem, by decide +kernel,
    forked_of_check (by decide +kernel) (by decide +kernel) (by decide +kernel) (by decide +kernel)
      (by decide +kernel), by decide, indexing_steady rfl, by decide +kernel, by decide +kernel,
    by decide +kernel, by decide +kernel⟩

end Fork

end Process

end ArkSwap.GoInternal
