import ArkSwap.IndexerReserves

/-! Blocks of an indexed chain that are processed again: rows are there already,
and reserves return to the newest Sync. -/

namespace ArkSwap.GoInternal

open Prog

namespace Indexer

variable {cfg : Config} {o : Outside} {c : Chain} {chains : Set Chain} {a : Address} {l : Log}
variable {logs : List Log} {header : Block} {ix ix' : Indexer} {base db db' : Database}
variable {tokens : List Token} {S : Log → Prop} {bn n fromBlock toBlock : Nat}

structure IndexedBelow (cfg : Config) (c : Chain) (n : Nat) (db : Database) : Prop where
  complete : Complete cfg c (Below n) db
  keys : ∀ (a : Address) row, db.pairs[a]? = some row → row.address = a
  isPair : ∀ (a : Address) row, db.pairs[a]? = some row → c.IsPair cfg a
  synced : ∀ (a : Address) row, db.pairs[a]? = some row → row.state = syncedState (c.lastSync a 0 n)

structure SameEvents (db db' : Database) : Prop where
  pairs : ∀ a : Address, db'.pairs[a]?.map Pair.raw = db.pairs[a]?.map Pair.raw
  swaps : db'.swaps = db.swaps
  liquidityEvents : db'.liquidityEvents = db.liquidityEvents

theorem SameEvents.trans {db'' : Database} (h : SameEvents db db') (h' : SameEvents db' db'') :
    SameEvents db db'' :=
  ⟨fun a => (h'.pairs a).trans (h.pairs a), h'.swaps.trans h.swaps,
    h'.liquidityEvents.trans h.liquidityEvents⟩

theorem SameRows.events (h : SameRows db db') : SameEvents db db' :=
  ⟨fun a => by rw [h.pairs], h.swaps, h.liquidityEvents⟩

theorem SameEvents.complete (h : SameEvents db db') (hcomplete : Complete cfg c S db) :
    Complete cfg c S db' where
  pairs l b r hentry hl := by
    obtain ⟨row, hrow⟩ := hcomplete.pairs l b r hentry hl
    have hraw := h.pairs (pairFeed.keyOf r)
    rw [hrow] at hraw
    obtain ⟨row', hrow', -⟩ := Option.map_eq_some_iff.mp hraw
    exact ⟨row', hrow'⟩
  swaps := h.swaps ▸ hcomplete.swaps
  liquidityEvents := h.liquidityEvents ▸ hcomplete.liquidityEvents

theorem Pair.eq_of_raw {p q : Pair} (hraw : p.raw = q.raw) (hstate : p.state = q.state) : p = q := by
  obtain ⟨hr₀, hstate⟩ := Prod.mk.inj hstate
  obtain ⟨hr₁, hlast⟩ := Prod.mk.inj hstate
  cases p
  cases q
  simp only [Pair.raw, Pair.mk.injEq] at hraw hr₀ hr₁ hlast ⊢
  tauto

theorem sameRows_of_events (h : SameEvents db db') (hstates : ∀ (a : Address) row row',
    db.pairs[a]? = some row → db'.pairs[a]? = some row' → row'.state = row.state) : SameRows db db' := by
  refine ⟨Std.ExtTreeMap.ext_getElem? fun a => ?_, h.swaps, h.liquidityEvents⟩
  have hraw := h.pairs a
  rcases hrow : db.pairs[a]? with _ | row
  · rw [hrow] at hraw
    exact Option.map_eq_none_iff.mp hraw
  · rw [hrow] at hraw
    obtain ⟨row', hrow', hraw'⟩ := Option.map_eq_some_iff.mp hraw
    rw [hrow', Pair.eq_of_raw hraw' (hstates a row row' hrow hrow')]

theorem stepLog_indexed (hcomplete : Complete cfg c S db) (hrel : c.Relevant cfg l)
    (hb : c.headerAt l.blockNumber = some header) (hl : S l)
    (hstep : stepLog cfg header (ix, db) l = some (ix', db')) : SameEvents db db' := by
  rcases stepLog_cases hstep with ⟨-, -, rfl⟩ | ⟨statement, ha, -, rfl⟩
  · exact (SameRows.refl db').events
  · cases ha with
    | created p hp =>
      obtain ⟨row, hrow⟩ := hcomplete.pairs l header p ⟨hrel, hb, hp⟩ hl
      have hsame : db.pairs.insertIfNew p.address { p with lastSyncBlock := none } = db.pairs :=
        Table.insertIfNew_of_get hrow
      exact SameRows.events ⟨hsame, rfl, rfl⟩
    | synced ev htopic hev =>
      refine ⟨fun a => ?_, rfl, rfl⟩
      change (db.pairs.modify _ _)[a]?.map Pair.raw = _
      rw [Table.get_modify]
      split
      · rename_i ha
        rw [Option.map_map, ha]
        refine congrArg (fun f => Option.map f db.pairs[l.address]?) (funext fun row => ?_)
        change Pair.raw (ite _ _ _) = Pair.raw row
        split <;> rfl
      · rfl
    | swapped s p hs hp =>
      obtain ⟨row, hrow⟩ := hcomplete.swaps l header s ⟨hrel, hb, hs⟩ hl
      have hkey : (ix.valuedSwap s p).key = s.key := valuedSwap_key ix s p
      have hsame : db.swaps.insertIfNew (ix.valuedSwap s p).key (ix.valuedSwap s p).stored = db.swaps := by
        rw [hkey]
        exact Table.insertIfNew_of_get hrow
      exact SameRows.events ⟨rfl, hsame, rfl⟩
    | deposited e he =>
      obtain ⟨row, hrow⟩ := hcomplete.liquidityEvents l header e ⟨hrel, hb, he⟩ hl
      have hsame : db.liquidityEvents.insertIfNew (ix.valuedLiquidity e).key
          (ix.valuedLiquidity e).stored = db.liquidityEvents := Table.insertIfNew_of_get hrow
      exact SameRows.events ⟨rfl, rfl, hsame⟩

theorem stepLogs_indexed (hcomplete : Complete cfg c S db)
    (hlogs : ∀ l ∈ logs, c.Relevant cfg l ∧ c.headerAt l.blockNumber = some header ∧ S l)
    (hfold : logs.foldlM (stepLog cfg header) (ix, db) = some (ix', db')) : SameEvents db db' := by
  refine stepLogs_inv (P := fun _ db' => SameEvents db db') (fun l hl _ _ _ _ hsame hstep => ?_)
    (SameRows.refl db).events hfold
  obtain ⟨hrel, hb, hS⟩ := hlogs l hl
  exact hsame.trans (stepLog_indexed (hsame.complete hcomplete) hrel hb hS hstep)

theorem settled_again (hc : c.WellFormed cfg) (hbn : bn < n) :
    settled (syncedState (c.lastSync a 0 n)) (c.lastSync a bn (bn + 1)) =
      syncedState (c.lastSync a 0 n) := by
  rw [lastSync_split (Nat.zero_le (bn + 1)) hbn, lastSync_split (Nat.zero_le bn) (Nat.le_succ bn)]
  rcases hs : c.lastSync a bn (bn + 1) with _ | s
  · rfl
  · have hlow := (lastSync_bounds hc hs).2
    rcases hr : c.lastSync a (bn + 1) n with _ | r
    · simp [settled, syncedState]
    · have hhigh := (lastSync_bounds hc hr).1
      simp only [Option.some_or, syncedState, settled, Option.all_some, decide_eq_true_eq]
      exact if_neg (by omega)

theorem IndexedBelow.congr (h : IndexedBelow cfg c n db) (hsame : SameRows db db') : IndexedBelow cfg c n db' where
  complete := hsame.complete h.complete
  keys := hsame.pairs ▸ h.keys
  isPair := hsame.pairs ▸ h.isPair
  synced := hsame.pairs ▸ h.synced

theorem IndexedBelow.indexBlock (hnet : Chain.Network cfg chains) (hc : c ∈ chains)
    (h : IndexedBelow cfg c n db) (hbn : bn < n) (hlogs : BlockLogs False cfg c bn header logs)
    (hsyncs : ∀ a, lastOf a logs = none ∨ lastOf a logs = c.lastSync a bn (bn + 1))
    (hrun : indexBlock cfg header bn tokens logs (ix, db) = some (ix', db')) : SameRows db db' := by
  obtain ⟨db₁, db₂, hopen, hfold, hclose⟩ := indexBlock_eq_some hrun
  have hopened := opening_rows hopen
  have hevents : SameEvents db₁ db₂ := by
    refine stepLogs_indexed (hopened.complete h.complete) (fun l hl => ?_) hfold
    obtain ⟨hrel, rfl⟩ := hlogs.relevant l hl
    exact ⟨hrel, hlogs.headerAt, hbn⟩
  have hstart : ∀ (a : Address) row, db₁.pairs[a]? = some row →
      row.state = settled (stateOf db₁ a) ((lastOf a []).or (c.lastSync a bn bn)) := by
    intro a row hrow
    rw [lastSync_empty, stateOf, hrow]
    rfl
  have hsettles := (stepLogs_replayed [] hnet hc hlogs.relevant hlogs.sorted
    (fun a row hrow => ⟨row, hrow⟩) hstart hfold).2
  have hstates : ∀ (a : Address) row row', db₁.pairs[a]? = some row → db₂.pairs[a]? = some row' →
      row'.state = row.state := by
    intro a row row' hrow hrow'
    have hstored := hrow
    rw [hopened.pairs] at hstored
    have hstate : stateOf db₁ a = row.state := by
      rw [stateOf, hrow]
      rfl
    rw [hsettles a row' hrow', lastSync_empty, Option.or_none, List.nil_append, hstate]
    rcases hsyncs a with hnone | hall
    · rw [hnone]
      rfl
    · rw [hall, h.synced a row hstored]
      exact settled_again (hnet.wellFormed c hc) hbn
  exact (hopened.trans (sameRows_of_events hevents hstates)).trans (closing_rows hclose)

/-- A range has all Syncs of an address that it asks for, and none of another. -/
theorem fetched_syncs (hnet : Chain.Network cfg chains) (hc : c ∈ chains)
    (hgenuine : Genuine cfg chains ix) (hfrom : fromBlock ≤ bn) (hto : bn ≤ toBlock)
    (hheader : c.headerAt bn = some header) (a : Address) :
    lastOf a (logsOf (fetched cfg c (ix.knownPairs.toList.map Prod.fst) fromBlock toBlock) bn) = none ∨
      lastOf a (logsOf (fetched cfg c (ix.knownPairs.toList.map Prod.fst) fromBlock toBlock) bn) =
        c.lastSync a bn (bn + 1) := by
  have hwf := hnet.wellFormed c hc
  by_cases hasked : a ∈ ix.knownPairs.toList.map Prod.fst ∨ ∃ m ev, c.Created cfg a m ev ∧
      fromBlock ≤ m.blockNumber ∧ m.blockNumber ≤ toBlock
  · refine Or.inr (lastOf_block hwf (fetched_blockLogs hnet hc hgenuine hheader) fun l hl r hs => ?_)
    obtain ⟨rfl, htopic, -⟩ := syncOf_eq_some.mp hs
    have hbn := hwf.blockNumber bn l hl
    refine mem_logsOf.mpr ⟨(mem_fetched hwf).mpr ⟨hwf.emits hl, by omega, by omega, Or.inr ⟨?_, hasked⟩⟩, hbn⟩
    exact ⟨.sync, by decide, htopic⟩
  · refine Or.inl (lastOf_eq_none.mpr fun l hl => ?_)
    rcases hs : syncOf a l with _ | r
    · rfl
    · obtain ⟨rfl, htopic, -⟩ := syncOf_eq_some.mp hs
      obtain ⟨-, -, -, ⟨-, hfactory⟩ | ⟨-, hknown⟩⟩ := (mem_fetched hwf).mp (mem_logsOf.mp hl).1
      · rw [htopic] at hfactory
        cases hfactory
      · exact (hasked hknown).elim

section Range

/-- The rows of an index are untouched, and memory has pairs of the network only. -/
def Untouched (cfg : Config) (chains : Set Chain) (base : Database) (ix : Indexer) (db : Database) : Prop :=
  SameRows base db ∧ Genuine cfg chains ix

variable (hnet : Chain.Network cfg chains) (hc : c ∈ chains) (h : IndexedBelow cfg c n base)
variable (hsees : Sees o c toBlock) (hn : toBlock < n)

include hnet hc h hsees hn

theorem processBlock_untouched (hto : bn ≤ toBlock)
    (hlogs : ∀ header, c.headerAt bn = some header → BlockLogs False cfg c bn header logs ∧
      ∀ a, lastOf a logs = none ∨ lastOf a logs = c.lastSync a bn (bn + 1)) :
    Triple (On (Untouched cfg chains base)) (processBlock cfg o bn logs)
      (fun _ => On (Untouched cfg chains base)) (On (Untouched cfg chains base)) := by
  rintro s ⟨hsame, hgenuine⟩
  have hdone : ∀ {k header tokens ix' db'}, (o.chain k).headerAt bn = some header →
      indexBlock cfg header bn tokens logs (s.ix.loadTokens tokens, s.db) = some (ix', db') →
      Untouched cfg chains base ix' db' := by
    intro k header tokens ix' db' hheader hrun
    rw [hsees.header hto] at hheader
    obtain ⟨hblock, hsyncs⟩ := hlogs header hheader
    refine ⟨hsame.trans ((h.congr hsame).indexBlock hnet hc (Nat.lt_of_le_of_lt hto hn) hblock hsyncs
      hrun), ?_⟩
    rw [indexBlock_memory hrun]
    exact Genuine.foldl hgenuine hc fun l hl => (hblock.relevant l hl).1
  refine Triple.conseq (processBlock_triple s.ix s.db) (fun _ hs => hs) ?_ ?_ s ⟨rfl, rfl⟩
  · rintro - t ⟨k, header, tokens, hheader, -, hrun⟩
    exact hdone hheader hrun
  · rintro t (⟨hix, hdb⟩ | ⟨k, header, tokens, hheader, -, ⟨hdb, done, hfirst, hix⟩ | hrun⟩)
    · rw [On, hix, hdb]
      exact ⟨hsame, hgenuine⟩
    · rw [hsees.header hto] at hheader
      rw [On, hdb, hix]
      refine ⟨hsame, Genuine.foldl hgenuine hc fun l hl => ?_⟩
      exact ((hlogs header hheader).1.relevant l (hfirst.subset hl)).1
    · exact hdone hheader hrun

theorem indexLogs_untouched
    (hrange : ∀ l ∈ logs, fromBlock ≤ l.blockNumber ∧ l.blockNumber ≤ toBlock)
    (hlogs : ∀ bn header, fromBlock ≤ bn → bn ≤ toBlock → c.headerAt bn = some header →
      BlockLogs False cfg c bn header (logsOf logs bn) ∧
        ∀ a, lastOf a (logsOf logs bn) = none ∨ lastOf a (logsOf logs bn) = c.lastSync a bn (bn + 1)) :
    Triple (On (Untouched cfg chains base)) (indexLogs cfg o toBlock logs)
      (fun _ => On (Untouched cfg chains base)) (On (Untouched cfg chains base)) := by
  have hblocks : ∀ bn ∈ blockNums (sortLogs logs), fromBlock ≤ bn ∧ bn ≤ toBlock := by
    intro bn hbn
    obtain ⟨l, hl, rfl⟩ := mem_blockNums.mp hbn
    exact hrange l (mem_sortLogs.mp hl)
  refine Triple.bind (Q := fun _ => On (Untouched cfg chains base)) ?_ fun _ => ?_
  · refine Triple.conseq (Triple.forEach (fun rest s => On (Untouched cfg chains base) s ∧
      ∀ bn ∈ rest, fromBlock ≤ bn ∧ bn ≤ toBlock) (fun bn rest => ?_) (blockNums (sortLogs logs)))
      (fun _ hs => ⟨hs, hblocks⟩) (fun _ _ hs => hs.1) fun _ hs => hs
    rintro s ⟨hs, hrest⟩
    obtain ⟨hfrom, hto⟩ := hrest bn List.mem_cons_self
    exact Triple.conseq (processBlock_untouched hnet hc h hsees hn hto fun header hheader =>
      hlogs bn header hfrom hto hheader) (fun _ hs => hs)
      (fun _ t ht => ⟨ht, fun bn hbn => hrest bn (List.mem_cons_of_mem _ hbn)⟩) (fun _ hs => hs) s hs
  · refine Triple.bind (Triple.conseq headerByNumber_triple (fun _ hs => hs) (fun _ _ hs => hs.1)
      fun _ hs => hs) fun head => ?_
    refine inBlockTx_triple (P := Untouched cfg chains base) (Q := Untouched cfg chains base)
      (E := Untouched cfg chains base) (fun before => ?_) (fun _ _ hs => hs) fun _ _ hs => hs
    refine Triple.conseq (exec_triple (P := fun ix db => Untouched cfg chains base ix db ∧ db = before)
      (Q := fun ix db => Untouched cfg chains base ix db ∧ Untouched cfg chains base ix before) ?_)
      (fun _ hs => hs) (fun _ _ hs => hs) ?_
    · rintro ix db ⟨hs, rfl⟩ -
      exact ⟨⟨{ hs.1 with }, hs.2⟩, hs⟩
    · rintro s ⟨hs, hbefore⟩
      rw [On, ← hbefore]
      exact hs

/-- A range below the height changes none of the rows, whichever calls fail. -/
theorem processRange_untouched :
    Triple (On (Untouched cfg chains base)) (processRange cfg o fromBlock toBlock)
      (fun _ => On (Untouched cfg chains base)) (On (Untouched cfg chains base)) := by
  refine Triple.bind (Triple.attempt (fetchLogs_triple fun k m hm => hsees k m hm)) fun result => ?_
  rcases result with e | logs
  · exact Triple.conseq (refused_triple fun ix db hs _ => hs) (fun s hs => hs.2 e rfl)
      (fun _ _ hs => hs) fun _ hs => hs
  · intro s hs
    obtain ⟨hs, hlogs⟩ := hs.1 logs rfl
    have hwf := hnet.wellFormed c hc
    have hrange : ∀ l ∈ logs, fromBlock ≤ l.blockNumber ∧ l.blockNumber ≤ toBlock := by
      intro l hl
      rw [hlogs] at hl
      obtain ⟨-, hfrom, hto, -⟩ := (mem_fetched hwf).mp hl
      exact ⟨hfrom, hto⟩
    refine indexLogs_untouched hnet hc h hsees hn hrange (fun bn header hfrom hto hheader => ?_) s hs
    rw [hlogs]
    exact ⟨fetched_blockLogs hnet hc hs.2 hheader, fetched_syncs hnet hc hs.2 hfrom hto hheader⟩

end Range

end Indexer

structure Database.SameTotals (db db' : Database) : Prop where
  volumeSince : ∀ since pair, db'.volumeSince since pair = db.volumeSince since pair
  bucketVolume : ∀ pair bucketSeconds since bucket,
    db'.bucketVolume pair bucketSeconds since bucket = db.bucketVolume pair bucketSeconds since bucket
  swapsTotal : ∀ pair account, db'.swapsTotal pair account = db.swapsTotal pair account
  liquidityTotal : ∀ pair, db'.liquidityTotal pair = db.liquidityTotal pair

theorem Indexer.SameRows.totals {db db' : Database} (h : SameRows db db') : db.SameTotals db' where
  volumeSince since pair := by rw [Database.volumeSince, h.swaps, ← Database.volumeSince]
  bucketVolume pair bucketSeconds since bucket := by
    rw [Database.bucketVolume, h.swaps, ← Database.bucketVolume]
  swapsTotal pair account := by rw [Database.swapsTotal, h.swaps, ← Database.swapsTotal]
  liquidityTotal pair := by rw [Database.liquidityTotal, h.liquidityEvents, ← Database.liquidityTotal]

/-- What may follow a pass over a chain: a range of its blocks is processed again,
or the process restarts. -/
inductive Replay where
  | range (o : Outside) (fromBlock toBlock : Nat)
  | restart (o : Outside)

namespace Process

open Indexer

variable {cfg : Config} {c : Chain} {p : Process} {base : Database} {n : Nat}
variable {pass : List Step} {replays : List Replay} {r : Replay}

/-- A range that fails leaves what it has done. -/
def replay (cfg : Config) (p : Process) : Replay → Process
  | .range o fromBlock toBlock =>
      match p.memory with
      | none => p
      | some ix =>
          let t := (processRange cfg o fromBlock toBlock { ix := ix, db := p.db, calls := 0 }).2
          { memory := some t.ix, db := t.db }
  | .restart o => step cfg p (.restart o)

/-- The range ends below a height, and its calls see the chain as far as it reads. -/
def Revisits (c : Chain) (n : Nat) : Replay → Prop
  | .range o _ toBlock => toBlock < n ∧ Sees o c toBlock
  | .restart _ => True

structure AsRecorded (cfg : Config) (c : Chain) (base : Database) (p : Process) : Prop where
  rows : SameRows base p.db
  memory : ∀ ix, p.memory = some ix → Genuine cfg {c} ix

theorem AsRecorded.replay (hnet : Chain.Network cfg {c}) (hbase : IndexedBelow cfg c n base)
    (h : AsRecorded cfg c base p) (hr : Revisits c n r) : AsRecorded cfg c base (replay cfg p r) := by
  cases r with
  | range o fromBlock toBlock =>
    rw [Process.replay]
    rcases hm : p.memory with _ | ix
    · exact h
    · obtain ⟨hn, hsees⟩ := hr
      have hrange : On (Untouched cfg {c} base)
          (processRange cfg o fromBlock toBlock ⟨ix, p.db, 0⟩).2 :=
        (processRange_untouched hnet rfl hbase hsees hn).state ⟨h.rows, h.memory ix hm⟩
      refine ⟨hrange.1, fun ix' hix' => ?_⟩
      obtain rfl := Option.some.inj hix'
      exact hrange.2
  | restart o =>
    rw [Process.replay]
    rcases step_restart cfg p o with heq | heq
    · rw [heq]
      exact ⟨h.rows, fun ix hix => (by cases hix)⟩
    · rw [heq]
      refine ⟨h.rows, fun ix hix => ?_⟩
      obtain rfl := Option.some.inj hix
      have hstored := hbase.congr h.rows
      intro a row hrow
      rw [loaded_pairs hstored.keys] at hrow
      exact ⟨c, rfl, hstored.isPair a row hrow⟩

/-- A pass from scratch, whichever of its calls fail, records the blocks below its cursor. -/
theorem OnReplay.indexedBelow (hnet : Chain.Network cfg {c})
    (h : OnReplay cfg c initial.db cfg.factoryDeployBlock p) :
    IndexedBelow cfg c (nextBlock cfg p.db) p.db :=
  ⟨h.indexed.complete True.intro, h.indexed.keys, fun _ _ hrow => h.indexed.isPair hrow,
    fun _ _ hrow => h.synced hnet hrow⟩

/-- Once the blocks below a height are indexed, processing any of them again, in any
ranges and with any failures and restarts, changes no event, no pair and no total. -/
theorem replays_idempotent (hnet : Chain.Network cfg {c}) (hbatch : 0 < cfg.blockBatchSize)
    (hpass : Run.Along (step cfg) (Watches cfg c) initial pass)
    (hreplays : ∀ r ∈ replays, Revisits c (nextBlock cfg (Run.run (step cfg) initial pass).db) r) :
    SameRows (Run.run (step cfg) initial pass).db
        (Run.run (replay cfg) (Run.run (step cfg) initial pass) replays).db ∧
      (Run.run (step cfg) initial pass).db.SameTotals
        (Run.run (replay cfg) (Run.run (step cfg) initial pass) replays).db := by
  have hindex := (onReplay_initial hnet).run hnet hbatch hpass
  have hbelow := hindex.indexedBelow hnet
  have hstart : AsRecorded cfg c (Run.run (step cfg) initial pass).db (Run.run (step cfg) initial pass) :=
    ⟨SameRows.refl _, fun ix hix => (hindex.memory ix hix).1.genuine⟩
  have hend := Run.run_inv_along (AsRecorded cfg c (Run.run (step cfg) initial pass).db)
    (fun p r hp hr => hp.replay hnet hbelow hr) hstart (Run.Along.of_forall (Q := Revisits c _) hreplays)
  exact ⟨hend.rows, hend.rows.totals⟩

section Fork

open GoInternal.Fork

def deposited : Log :=
  { address := 50, topic := some .mint, indexed := [9], data := [100, 200], blockNumber := 2,
    txHash := 1110, index := 1, blockHash := 110 }

def swapped : Log :=
  { address := 50, topic := some .swap, indexed := [9, 9], data := [50, 0, 0, 60], blockNumber := 3,
    txHash := 1120, index := 0, blockHash := 120 }

def busy : Chain :=
  trunk ++ [{ header := { number := 2, hash := 110, parentHash := 101, timestamp := 3000 },
              logs := [synced 2 110 100 200, deposited, { synced 2 110 110 210 with index := 2 }] },
    { header := { number := 3, hash := 120, parentHash := 110, timestamp := 4000 },
      logs := [swapped, { synced 3 120 160 150 with index := 1 },
        { synced 3 120 170 140 with index := 2 }] }]

theorem busy_network : Chain.Network Fork.cfg {busy} := by
  have h : Chain.Network Fork.cfg {c | c ∈ [busy]} := Chain.network_of_check (by decide +kernel)
  exact h.subset fun c hc => List.mem_singleton.mpr hc

def interrupted : List Step :=
  [.restart (outside (fun _ => busy) []), .tick (outside (fun _ => busy) [22]),
    .tick (outside (fun _ => busy) [])]

/-- Ranges that end below the cursor, one of them after a restart and cut short. -/
def revisits : List Replay :=
  [.range (outside (fun _ => busy) []) 0 2, .restart (outside (fun _ => busy) []),
    .range (outside (fun _ => busy) [14]) 2 3, .range (outside (fun _ => busy) []) 3 3,
    .range (outside (fun _ => busy) []) 1 1]

theorem revisits_idempotent :
    SameRows (Run.run (step Fork.cfg) initial interrupted).db
        (Run.run (replay Fork.cfg) (Run.run (step Fork.cfg) initial interrupted) revisits).db ∧
      (Run.run (step Fork.cfg) initial interrupted).db.volumeSince 0 (some 50) =
        { volumeUSD := 0, txCount := 1, unpriced := 1 } := by
  have hnext : nextBlock Fork.cfg (Run.run (step Fork.cfg) initial interrupted).db = 4 := by
    decide +kernel
  have hpass : Run.Along (step Fork.cfg) (Watches Fork.cfg busy) initial interrupted :=
    ⟨True.intro, ⟨sees_steady _ _ _, by decide +kernel⟩, ⟨sees_steady _ _ _, by decide +kernel⟩, True.intro⟩
  refine ⟨(replays_idempotent busy_network (by decide) hpass fun r hr => ?_).1, by decide +kernel⟩
  rw [hnext]
  simp only [revisits, List.mem_cons, List.not_mem_nil, or_false] at hr
  rcases hr with rfl | rfl | rfl | rfl | rfl
  · exact ⟨by decide, sees_steady _ _ _⟩
  · exact True.intro
  · exact ⟨by decide, sees_steady _ _ _⟩
  · exact ⟨by decide, sees_steady _ _ _⟩
  · exact ⟨by decide, sees_steady _ _ _⟩

end Fork

end Process

end ArkSwap.GoInternal
