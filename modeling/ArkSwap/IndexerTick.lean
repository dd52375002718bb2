import ArkSwap.IndexerReorg

/-! A Tick: the range after the cursor is indexed block by block, and whatever
call fails, the database is an index of one chain up to its cursor. -/

namespace ArkSwap.GoInternal

open Prog

namespace Indexer

variable {cfg : Config} {o : Outside} {c : Chain} {chains : Set Chain} {full : Prop}
variable {ix ix' : Indexer} {db db' : Database} {top bn fromBlock toBlock : Nat}
variable {header : Block} {logs : List Log} {tokens : List Token} {rest : List Nat}

/-- The logs of one block of the chain, in order. -/
structure BlockLogs (full : Prop) (cfg : Config) (c : Chain) (bn : Nat) (header : Block)
    (logs : List Log) : Prop where
  headerAt : c.headerAt bn = some header
  number : header.number = bn
  relevant : ∀ l ∈ logs, c.Relevant cfg l ∧ l.blockNumber = bn
  all : full → ∀ l, c.Relevant cfg l → l.blockNumber = bn → l ∈ logs
  sorted : logs.Pairwise fun l k => ¬k.Before l

/-- Nothing relevant happens from a height on and below another. -/
def Quiet (cfg : Config) (c : Chain) (m n : Nat) : Prop :=
  ∀ l, c.Relevant cfg l → m ≤ l.blockNumber → l.blockNumber < n → False

/-- A condition that a block of the chain keeps, and so does a cursor that only
passes quiet blocks. -/
structure Kept (full : Prop) (cfg : Config) (o : Outside) (c : Chain)
    (J : Indexer → Database → Prop) : Prop where
  block : ∀ bn header tokens logs ix db ix' db', J ix db → Indexed full cfg c db →
    nextBlock cfg db ≤ bn → BlockLogs full cfg c bn header logs →
    (full → Quiet cfg c (nextBlock cfg db) bn) → Fetched cfg o.abi (createdTokens logs) tokens →
    indexBlock cfg header bn tokens logs (ix.loadTokens tokens, db) = some (ix', db') → J ix' db'
  cursor : ∀ n b ix db, J ix db → Indexed full cfg c db → nextBlock cfg db ≤ n + 1 →
    c.headerAt n = some b → (full → Quiet cfg c (nextBlock cfg db) (n + 1)) →
    cfg.factoryDeployBlock ≤ n → J ix ((cursorAt cfg n b).effect db)
  batch : ∀ ix db n, J ix db → J { ix with batchSize := n } db

theorem Kept.trivial : Kept full cfg o c fun _ _ => True :=
  ⟨fun _ _ _ _ _ _ _ _ _ _ _ _ _ _ _ => True.intro, fun _ _ _ _ _ _ _ _ _ _ => True.intro,
    fun _ _ _ _ => True.intro⟩

/-- What a failure leaves of a condition: the database as it was, with memory after
some first part of a block. -/
structure Left (cfg : Config) (c : Chain) (J E : Indexer → Database → Prop) : Prop where
  whole : ∀ ix db, J ix db → E ix db
  partly : ∀ header tokens logs ix ix' db, J ix db → (∀ l ∈ logs, c.Relevant cfg l) →
    Partial cfg header tokens logs ix ix' → E ix' db

theorem Left.trivial {J : Indexer → Database → Prop} : Left cfg c J fun _ _ => True :=
  ⟨fun _ _ _ => True.intro, fun _ _ _ _ _ _ _ _ _ => True.intro⟩

/-- The index in the middle of a range, with the blocks still to be done. -/
structure Filling (full : Prop) (cfg : Config) (chains : Set Chain) (c : Chain)
    (fromBlock toBlock : Nat) (rest : List Nat) (ix : Indexer) (db : Database) : Prop where
  indexed : Indexed full cfg c db
  genuine : Genuine cfg chains ix
  batch : 0 < ix.batchSize ∧ ix.batchSize ≤ cfg.blockBatchSize
  started : fromBlock ≤ nextBlock cfg db
  next : nextBlock cfg db ≤ toBlock + 1
  above : ∀ bn ∈ rest, nextBlock cfg db ≤ bn ∧ bn ≤ toBlock
  sorted : rest.Pairwise (· < ·)
  knows : full → Knows cfg c (Below (nextBlock cfg db)) ix
  left : full → ∀ l, c.Relevant cfg l → nextBlock cfg db ≤ l.blockNumber →
    l.blockNumber ≤ toBlock → l.blockNumber ∈ rest

theorem Filling.held (h : Filling full cfg chains c fromBlock toBlock rest ix db) (hc : c ∈ chains) :
    Held full cfg chains ix db := ⟨⟨c, hc, h.indexed⟩, h.genuine, h.batch⟩

theorem Filling.quiet (h : Filling full cfg chains c fromBlock toBlock (bn :: rest) ix db) (hfull : full) :
    Quiet cfg c (nextBlock cfg db) bn := by
  intro l hl hfrom hlt
  have hto := (h.above bn List.mem_cons_self).2
  rcases List.mem_cons.mp (h.left hfull l hl hfrom (by omega)) with heq | hmem
  · omega
  · have hgt := (List.pairwise_cons.mp h.sorted).1 _ hmem
    omega

theorem below_of_quiet {m n : Nat} (h : Quiet cfg c m n) (l : Log) (hl : c.Relevant cfg l)
    (hn : Below n l) : Below m l := by
  rcases Nat.lt_or_ge l.blockNumber m with hlt | hge
  · exact hlt
  · exact (h l hl hge hn).elim

theorem Complete.extend {m n : Nat} (h : Complete cfg c (Below m) db) (hq : Quiet cfg c m n) :
    Complete cfg c (Below n) db :=
  ⟨h.pairs.mono (below_of_quiet hq), h.swaps.mono (below_of_quiet hq),
    h.liquidityEvents.mono (below_of_quiet hq)⟩

theorem Sound.extend {m n : Nat} (h : Sound cfg c m db) (hmn : m ≤ n) : Sound cfg c n db where
  blocks k b hb := ⟨(h.blocks k b hb).1, Nat.lt_of_lt_of_le (h.blocks k b hb).2.1 hmn,
    (h.blocks k b hb).2.2⟩
  pairs := h.pairs.mono fun _ hl => Nat.lt_of_lt_of_le hl hmn
  swaps := h.swaps.mono fun _ hl => Nat.lt_of_lt_of_le hl hmn
  liquidityEvents := h.liquidityEvents.mono fun _ hl => Nat.lt_of_lt_of_le hl hmn

theorem memoryLog_batchSize (l : Log) : (memoryLog cfg header ix l).batchSize = ix.batchSize := by
  rw [memoryLog]
  rcases ha : applyLog cfg header ix l with _ | ⟨statement, ix₁⟩
  · rfl
  · cases applied_of_applyLog ha <;> rfl

theorem foldl_memoryLog_batchSize :
    (logs.foldl (memoryLog cfg header) ix).batchSize = ix.batchSize := by
  induction logs generalizing ix with
  | nil => rfl
  | cons l logs ih => exact ih.trans (memoryLog_batchSize l)

theorem indexBlock_memory {s : Indexer × Database}
    (h : indexBlock cfg header bn tokens logs s = some (ix', db')) :
    ix' = logs.foldl (memoryLog cfg header) s.1 := by
  obtain ⟨db₁, db₂, -, hfold, -⟩ := indexBlock_eq_some h
  exact foldlM_memory hfold

theorem Filling.block (hnet : Chain.Network cfg chains) (hc : c ∈ chains)
    (h : Filling full cfg chains c fromBlock toBlock (bn :: rest) ix db)
    (hblock : BlockLogs full cfg c bn header logs)
    (hrun : indexBlock cfg header bn tokens logs (ix.loadTokens tokens, db) = some (ix', db')) :
    Filling full cfg chains c fromBlock toBlock rest ix' db' := by
  have hmemory := indexBlock_memory hrun
  have hcursor := indexBlock_cursor hrun
  have hnext : nextBlock cfg db' = bn + 1 := nextBlock_of_some hcursor
  obtain ⟨hfrom, hto⟩ := h.above bn List.mem_cons_self
  obtain ⟨hfirst, hsorted⟩ := List.pairwise_cons.mp h.sorted
  have hdeploy : cfg.factoryDeployBlock ≤ bn := Nat.le_trans h.indexed.deployed hfrom
  have hsound : Sound cfg c (bn + 1) db' :=
    h.indexed.sound.indexBlock hdeploy (by omega) hblock.headerAt hblock.number hblock.relevant hrun
  have hcomplete : full → Complete cfg c (Below (bn + 1)) db' ∧ Knows cfg c (Below (bn + 1)) ix' := by
    intro hfull
    have hquiet := h.quiet hfull
    have hknows : Knows cfg c (Below bn) (ix.loadTokens tokens) :=
      (h.knows hfull).mono (below_of_quiet hquiet)
    exact Complete.indexBlock hnet hc ((h.indexed.complete hfull).extend hquiet) hknows hblock.headerAt
      (fun l => ⟨hblock.relevant l, fun hl => hblock.all hfull l hl.1 hl.2⟩) hblock.sorted hrun
  have hstarted := h.started
  refine ⟨⟨fun st hst => ?_, ?_, fun hfull => ?_⟩, ?_, ?_, ?_, ?_, fun bn' hbn' => ?_, hsorted,
    fun hfull => ?_, fun hfull l hl hge hle => ?_⟩
  · obtain rfl := Option.some.inj (hcursor.symm.trans hst)
    exact ⟨hdeploy, header, hblock.headerAt, rfl⟩
  · rw [hnext]
    exact hsound
  · rw [hnext]
    exact (hcomplete hfull).1
  · rw [hmemory]
    exact Genuine.foldl h.genuine hc fun l hl => (hblock.relevant l hl).1
  · rw [hmemory, foldl_memoryLog_batchSize]
    exact h.batch
  · omega
  · omega
  · have hgt := hfirst bn' hbn'
    have hle := (h.above bn' (List.mem_cons_of_mem bn hbn')).2
    omega
  · rw [hnext]
    exact (hcomplete hfull).2
  · rw [hnext] at hge
    rcases List.mem_cons.mp (h.left hfull l hl (by omega) hle) with heq | hmem
    · omega
    · exact hmem

theorem Filling.cursor (h : Filling full cfg chains c fromBlock toBlock [] ix db) {b : Block}
    (hb : c.headerAt toBlock = some b) (hdeploy : cfg.factoryDeployBlock ≤ toBlock) :
    Indexed full cfg c ((cursorAt cfg toBlock b).effect db) := by
  have hcursor := cursorAt_effect cfg toBlock b db
  have hnext : nextBlock cfg ((cursorAt cfg toBlock b).effect db) = toBlock + 1 :=
    nextBlock_of_some hcursor
  refine ⟨fun st hst => ?_, ?_, fun hfull => ?_⟩
  · obtain rfl := Option.some.inj (hcursor.symm.trans hst)
    exact ⟨hdeploy, b, hb, rfl⟩
  · have hsound := h.indexed.sound.extend h.next
    rw [hnext]
    exact { hsound with }
  · have hcomplete := (h.indexed.complete hfull).extend fun l hl hge hlt =>
      List.not_mem_nil (h.left hfull l hl hge (Nat.le_of_lt_succ hlt))
    rw [hnext]
    exact { hcomplete with }

theorem Filling.partly (h : Filling full cfg chains c fromBlock toBlock rest ix db) (hc : c ∈ chains)
    (hrelevant : ∀ l ∈ logs, c.Relevant cfg l) (hpart : Partial cfg header tokens logs ix ix') :
    Held full cfg chains ix' db := by
  obtain ⟨done, hdone, rfl⟩ := hpart
  refine ⟨⟨c, hc, h.indexed⟩, ?_, ?_⟩
  · exact Genuine.foldl h.genuine hc fun l hl => hrelevant l (hdone.subset hl)
  · rw [foldl_memoryLog_batchSize]
    exact h.batch

section Range

variable {J E : Indexer → Database → Prop}

/-- One block of the range: done, or left for a later Tick. -/
theorem processBlock_filling (hnet : Chain.Network cfg chains) (hc : c ∈ chains)
    (hsees : Sees o c top) (htop : toBlock ≤ top) (hJ : Kept full cfg o c J) (hE : Left cfg c J E)
    (hlogs : ∀ header, fromBlock ≤ bn → bn ≤ toBlock → c.headerAt bn = some header →
      BlockLogs full cfg c bn header logs) :
    Triple (On fun ix db => Filling full cfg chains c fromBlock toBlock (bn :: rest) ix db ∧ J ix db)
      (processBlock cfg o bn logs)
      (fun _ => On fun ix db => Filling full cfg chains c fromBlock toBlock rest ix db ∧ J ix db)
      (On fun ix db => Held full cfg chains ix db ∧ E ix db) := by
  rintro s ⟨hfilling, hs⟩
  obtain ⟨hnext, hbn⟩ := hfilling.above bn List.mem_cons_self
  have hstart := Nat.le_trans hfilling.started hnext
  have hdone : ∀ {k header tokens ix' db'}, (o.chain k).headerAt bn = some header →
      Fetched cfg o.abi (createdTokens logs) tokens →
      indexBlock cfg header bn tokens logs (s.ix.loadTokens tokens, s.db) = some (ix', db') →
      Filling full cfg chains c fromBlock toBlock rest ix' db' ∧ J ix' db' := by
    intro k header tokens ix' db' hheader hfetched hrun
    rw [hsees.header (by omega)] at hheader
    have hblock := hlogs header hstart hbn hheader
    exact ⟨hfilling.block hnet hc hblock hrun, hJ.block bn header tokens logs s.ix s.db ix' db' hs
      hfilling.indexed hnext hblock hfilling.quiet hfetched hrun⟩
  refine Triple.conseq (processBlock_triple s.ix s.db) (fun _ hs => hs) ?_ ?_ s
    ⟨rfl, rfl⟩
  · rintro - t ⟨k, header, tokens, hheader, hfetched, hrun⟩
    exact hdone hheader hfetched hrun
  · rintro t (⟨hix, hdb⟩ | ⟨k, header, tokens, hheader, hfetched, ⟨hdb, hpart⟩ | hrun⟩)
    · rw [On, hix, hdb]
      exact ⟨hfilling.held hc, hE.whole s.ix s.db hs⟩
    · rw [hsees.header (by omega)] at hheader
      have hrelevant : ∀ l ∈ logs, c.Relevant cfg l :=
        fun l hl => ((hlogs header hstart hbn hheader).relevant l hl).1
      rw [On, hdb]
      exact ⟨hfilling.partly hc hrelevant hpart,
        hE.partly header tokens logs s.ix t.ix s.db hs hrelevant hpart⟩
    · obtain ⟨hfilling', hs'⟩ := hdone hheader hfetched hrun
      exact ⟨hfilling'.held hc, hE.whole t.ix t.db hs'⟩

theorem indexLogs_filling (hnet : Chain.Network cfg chains) (hc : c ∈ chains)
    (hsees : Sees o c top) (htop : toBlock ≤ top) (hdeploy : cfg.factoryDeployBlock ≤ toBlock)
    (hJ : Kept full cfg o c J) (hE : Left cfg c J E)
    (hfetched : ∀ bn header, fromBlock ≤ bn → bn ≤ toBlock → c.headerAt bn = some header →
      BlockLogs full cfg c bn header (logsOf logs bn)) :
    Triple (On fun ix db =>
        Filling full cfg chains c fromBlock toBlock (blockNums (sortLogs logs)) ix db ∧ J ix db)
      (indexLogs cfg o toBlock logs)
      (fun _ => On fun ix db => Held full cfg chains ix db ∧ J ix db ∧
        nextBlock cfg db = toBlock + 1)
      (On fun ix db => Held full cfg chains ix db ∧ E ix db) := by
  refine Triple.bind (Triple.forEach (fun rest => On fun ix db =>
    Filling full cfg chains c fromBlock toBlock rest ix db ∧ J ix db) (fun bn rest =>
      processBlock_filling hnet hc hsees htop hJ hE (hfetched bn)) (blockNums (sortLogs logs)))
    fun _ => ?_
  refine Triple.bind (Triple.conseq headerByNumber_triple (fun _ hs => hs) (fun _ _ hs => hs)
    fun s hs => ⟨hs.1.held hc, hE.whole s.ix s.db hs.2⟩) fun head => ?_
  refine inBlockTx_triple (fun before => ?_)
    (fun ix db h => ⟨h.1.1.held hc, hE.whole ix db h.1.2⟩) fun ix db h => ⟨h.1, hE.whole ix db h.2.1⟩
  refine Triple.conseq (exec_triple (Q := fun ix db => (Held full cfg chains ix db ∧ J ix db ∧
    nextBlock cfg db = toBlock + 1) ∧ Held full cfg chains ix before ∧ E ix before) ?_) (fun _ hs => hs)
    (fun _ _ hs => hs) ?_
  · rintro ix db ⟨⟨⟨hfilling, hj⟩, k, hk⟩, rfl⟩ -
    rw [hsees.header htop] at hk
    have hindexed := hfilling.cursor hk hdeploy
    have hquiet : full → Quiet cfg c (nextBlock cfg db) (toBlock + 1) := fun hfull l hl hge hlt =>
      List.not_mem_nil (hfilling.left hfull l hl hge (Nat.le_of_lt_succ hlt))
    exact ⟨⟨⟨⟨c, hc, hindexed⟩, hfilling.genuine, hfilling.batch⟩,
      hJ.cursor toBlock head ix db hj hfilling.indexed hfilling.next hk hquiet hdeploy,
      nextBlock_of_some (cursorAt_effect cfg toBlock head db)⟩, hfilling.held hc, hE.whole ix db hj⟩
  · rintro s ⟨⟨⟨hfilling, hj⟩, -⟩, hbefore⟩
    rw [On, ← hbefore]
    exact ⟨hfilling.held hc, hE.whole s.ix s.db hj⟩

theorem mem_keys {a : Address} :
    a ∈ ix.knownPairs.toList.map Prod.fst ↔ ∃ p, ix.knownPairs[a]? = some p := by
  rw [List.mem_map]
  constructor
  · rintro ⟨⟨a, p⟩, hmem, rfl⟩
    exact ⟨p, Std.ExtTreeMap.mem_toList_iff_getElem?_eq_some.mp hmem⟩
  · rintro ⟨p, hp⟩
    exact ⟨(a, p), Std.ExtTreeMap.mem_toList_iff_getElem?_eq_some.mpr hp, rfl⟩

theorem Checked.knows (h : Checked full cfg chains c ix db) (hfull : full) :
    Knows cfg c (Below (nextBlock cfg db)) ix := by
  intro a k ev hk hbelow
  obtain ⟨b, hb⟩ := hk.emits.header
  have hentry : pairFeed.Entry cfg c k b (createdPair b k ev) :=
    ⟨⟨hk.emits, Or.inl ⟨hk.factory, hk.topic⟩⟩, hb,
      pairOf_eq_some.mpr ⟨hk.topic, ev, hk.decoded, rfl⟩⟩
  obtain ⟨p, hp⟩ := (h.indexed.complete hfull).pairs k b _ hentry hbelow
  have haddress : pairFeed.keyOf (createdPair b k ev) = a := hk.pair
  rw [haddress] at hp
  exact h.covers hfull a p hp

theorem fetched_blockLogs (hnet : Chain.Network cfg chains) (hc : c ∈ chains)
    (hgenuine : Genuine cfg chains ix) (hheader : c.headerAt bn = some header) :
    BlockLogs False cfg c bn header
      (logsOf (fetched cfg c (ix.knownPairs.toList.map Prod.fst) fromBlock toBlock) bn) where
  headerAt := hheader
  number := (hnet.wellFormed c hc).number bn header hheader
  relevant l hl := by
    obtain ⟨hmem, hbn⟩ := mem_logsOf.mp hl
    refine ⟨relevant_of_mem_fetched hnet hc (fun a ha => ?_) hmem, hbn⟩
    obtain ⟨p, hp⟩ := mem_keys.mp ha
    exact hgenuine a p hp
  all := False.elim
  sorted := logsOf_pairwise _ bn

theorem Checked.blockLogs (hnet : Chain.Network cfg chains) (hc : c ∈ chains)
    (h : Checked full cfg chains c ix db) (hfrom : nextBlock cfg db ≤ bn) (hto : bn ≤ toBlock)
    (hheader : c.headerAt bn = some header) :
    BlockLogs full cfg c bn header (logsOf (fetched cfg c (ix.knownPairs.toList.map Prod.fst)
      (nextBlock cfg db) toBlock) bn) :=
  { fetched_blockLogs hnet hc h.genuine hheader with
    all := fun hfull l hl hbn => by
      refine mem_logsOf.mpr ⟨mem_fetched_of_relevant hnet hc (fun a m ev hm hlt => ?_) hl ?_ ?_, hbn⟩
      · exact mem_keys.mpr (h.knows hfull a m ev hm hlt)
      · omega
      · omega }

theorem Checked.filling (hnet : Chain.Network cfg chains) (hc : c ∈ chains)
    (h : Checked full cfg chains c ix db) (hto : nextBlock cfg db ≤ toBlock) :
    Filling full cfg chains c (nextBlock cfg db) toBlock (blockNums (sortLogs (fetched cfg c
      (ix.knownPairs.toList.map Prod.fst) (nextBlock cfg db) toBlock))) ix db where
  indexed := h.indexed
  genuine := h.genuine
  batch := h.batch
  started := Nat.le_refl _
  next := Nat.le_succ_of_le hto
  above bn hbn := by
    obtain ⟨l, hl, rfl⟩ := mem_blockNums.mp hbn
    obtain ⟨-, hge, hle, -⟩ := (mem_fetched (hnet.wellFormed c hc)).mp (mem_sortLogs.mp hl)
    exact ⟨hge, hle⟩
  sorted := blockNums_pairwise _
  knows := h.knows
  left hfull l hl hge hle := mem_blockNums.mpr ⟨l, mem_sortLogs.mpr (mem_fetched_of_relevant hnet hc
    (fun a m ev hm hlt => mem_keys.mpr (h.knows hfull a m ev hm hlt)) hl hge hle), rfl⟩

theorem refused_triple {P : Indexer → Database → Prop} {e : String}
    (hhalve : ∀ ix db, P ix db → 1 < ix.batchSize → P { ix with batchSize := ix.batchSize / 2 } db) :
    Triple (On P) (refused e) (fun _ => On P) (On P) := by
  refine Triple.bind (Triple.get (R := fun r s => On P s ∧ r = s) fun _ hs => ⟨hs, rfl⟩) fun r => ?_
  by_cases hsmall : rangeTooLarge e ∧ 1 < r.ix.batchSize
  · rw [if_pos hsmall]
    refine Triple.modify fun s hs => ?_
    obtain ⟨hs, rfl⟩ := hs
    exact hhalve r.ix r.db hs hsmall.2
  · rw [if_neg hsmall]
    exact Triple.fail fun s hs => hs.1

theorem refused_held {e : String} (hJ : Kept full cfg o c J) (hE : Left cfg c J E) :
    Triple (On fun ix db => Held full cfg chains ix db ∧ J ix db) (refused e)
      (fun _ => On fun ix db => Held full cfg chains ix db ∧ J ix db)
      (On fun ix db => Held full cfg chains ix db ∧ E ix db) := by
  refine Triple.conseq (refused_triple fun ix db hs hlarge => ?_) (fun _ hs => hs) (fun _ _ hs => hs)
    fun s hs => ⟨hs.1, hE.whole s.ix s.db hs.2⟩
  obtain ⟨hheld, hj⟩ := hs
  have hbatch := hheld.batch
  exact ⟨⟨hheld.indexed, hheld.genuine, by dsimp only; omega⟩, hJ.batch ix db _ hj⟩

theorem processRange_held (hnet : Chain.Network cfg chains) (hc : c ∈ chains)
    (hsees : Sees o c top) (htop : toBlock ≤ top) (hrange : fromBlock ≤ toBlock)
    (hJ : Kept full cfg o c J) (hE : Left cfg c J E) :
    Triple (On fun ix db => (Checked full cfg chains c ix db ∧ J ix db) ∧
        fromBlock = nextBlock cfg db)
      (processRange cfg o fromBlock toBlock)
      (fun _ => On fun ix db => Held full cfg chains ix db ∧ J ix db)
      (On fun ix db => Held full cfg chains ix db ∧ E ix db) := by
  refine Triple.bind (Triple.attempt (fetchLogs_triple fun k n hn =>
    hsees k n (Nat.le_trans hn htop))) fun result => ?_
  rcases result with e | logs
  · exact Triple.conseq (refused_held hJ hE) (fun s hs => ⟨(hs.2 e rfl).1.1.held hc, (hs.2 e rfl).1.2⟩)
      (fun _ _ hs => hs) fun _ hs => hs
  · intro s hs
    obtain ⟨⟨⟨hchecked, hj⟩, rfl⟩, hlogs⟩ := hs.1 logs rfl
    have hdeploy := Nat.le_trans hchecked.indexed.deployed hrange
    have hblocks : ∀ bn header, nextBlock cfg s.db ≤ bn → bn ≤ toBlock →
        c.headerAt bn = some header → BlockLogs full cfg c bn header (logsOf logs bn) := by
      rw [hlogs]
      exact fun bn header hge hle hheader => hchecked.blockLogs hnet hc hge hle hheader
    have hstart := hchecked.filling hnet hc hrange
    rw [← hlogs] at hstart
    obtain ⟨hok, herr⟩ := indexLogs_filling hnet hc hsees htop hdeploy hJ hE hblocks s ⟨hstart, hj⟩
    exact ⟨fun a t ht => ⟨(hok a t ht).1, (hok a t ht).2.1⟩, herr⟩

theorem rangeEnd_bounds {batchSize safe : Nat} (hbatch : 0 < batchSize)
    (hfits : fromBlock + batchSize ≤ 2 ^ 64) (hsafe : fromBlock ≤ safe) :
    fromBlock ≤ rangeEnd fromBlock batchSize safe ∧ rangeEnd fromBlock batchSize safe ≤ safe := by
  have hend : (fromBlock + batchSize + (2 ^ 64 - 1)) % 2 ^ 64 = fromBlock + batchSize - 1 := by
    omega
  rw [rangeEnd, hend]
  split <;> omega

/-- The range a Tick may index is one that all its calls see alike. -/
theorem advance_seen (safe : Nat) (hnet : Chain.Network cfg chains) (hc : c ∈ chains)
    (hsees : Sees o c top) (hJ : Kept full cfg o c J) (hE : Left cfg c J E) :
    Triple (On fun ix db => (Checked full cfg chains c ix db ∧ J ix db) ∧
        (nextBlock cfg db ≤ safe → rangeEnd (nextBlock cfg db) ix.batchSize safe ≤ top))
      (advance cfg o safe)
      (fun _ => On fun ix db => Held full cfg chains ix db ∧ J ix db)
      (On fun ix db => Held full cfg chains ix db ∧ E ix db) := by
  refine Triple.bind (Triple.conseq startBlock_triple (fun _ hs => hs) (fun _ _ hs => hs)
    fun s hs => ⟨hs.1.1.held hc, hE.whole s.ix s.db hs.1.2⟩) fun first => ?_
  by_cases hlt : safe < first
  · rw [if_pos hlt]
    exact Triple.pure fun s hs => ⟨hs.1.1.1.held hc, hs.1.1.2⟩
  · rw [if_neg hlt]
    refine Triple.bind (Triple.get (R := fun r s => On (fun ix db =>
      ((Checked full cfg chains c ix db ∧ J ix db) ∧
        (nextBlock cfg db ≤ safe → rangeEnd (nextBlock cfg db) ix.batchSize safe ≤ top)) ∧
      first = nextBlock cfg db) s ∧ r = s) fun _ hs => ⟨hs, rfl⟩) fun r => ?_
    intro s hs
    obtain ⟨⟨⟨⟨hchecked, hj⟩, htop⟩, rfl⟩, rfl⟩ := hs
    have hnext := Nat.le_of_not_lt hlt
    obtain ⟨hrange, -⟩ := rangeEnd_bounds hchecked.batch.1 hchecked.fits hnext
    exact processRange_held hnet hc hsees (htop hnext) hrange hJ hE r ⟨⟨hchecked, hj⟩, rfl⟩

theorem advance_held (hnet : Chain.Network cfg chains) (hc : c ∈ chains) (hsees : Sees o c top)
    {safe : Nat} (hsafe : safe ≤ top) (hJ : Kept full cfg o c J) (hE : Left cfg c J E) :
    Triple (On fun ix db => Checked full cfg chains c ix db ∧ J ix db) (advance cfg o safe)
      (fun _ => On fun ix db => Held full cfg chains ix db ∧ J ix db)
      (On fun ix db => Held full cfg chains ix db ∧ E ix db) :=
  Triple.conseq (advance_seen _ hnet hc hsees hJ hE) (fun _ hs => ⟨hs, fun hnext =>
    (rangeEnd_bounds hs.1.batch.1 hs.1.fits hnext).2.trans hsafe⟩) (fun _ _ hs => hs) fun _ hs => hs

end Range

theorem blockNumber_first (ix : Indexer) (db : Database) :
    Triple (fun s => s = ⟨ix, db, 0⟩) (blockNumber o)
      (fun head => On fun ix' db' => At ix db ix' db' ∧ head = (o.chain 0).headNumber)
      (On (At ix db)) := by
  rintro s rfl
  rcases he : o.error 0 with _ | e
  · have hrun : blockNumber o ⟨ix, db, 0⟩ = (.ok (o.chain 0).headNumber, ⟨ix, db, 1⟩) := by
      simp only [blockNumber, request, nextCall, Prog.get, Prog.modify, bind, pure, he]
    rw [hrun]
    refine ⟨fun head t ht => ?_, fun e t ht => ?_⟩ <;> cases ht
    exact ⟨⟨rfl, rfl⟩, rfl⟩
  · have hrun : blockNumber o ⟨ix, db, 0⟩ = (.error e, ⟨ix, db, 1⟩) := by
      simp only [blockNumber, request, nextCall, Prog.get, Prog.modify, Prog.fail, bind, pure, he]
    rw [hrun]
    refine ⟨fun head t ht => ?_, fun e t ht => ?_⟩ <;> cases ht
    exact ⟨rfl, rfl⟩

theorem tick_held (hnet : Chain.Network cfg chains) (hshared : SharedDeployment cfg chains)
    (hc : c ∈ chains) (hsees : Sees o c top) (hsafe : safeBlock cfg (o.chain 0).headNumber ≤ top)
    (htop : ∀ st, db.indexerState[cfg.chainID]? = some st → st.lastProcessedBlock ≤ top)
    (hheld : Held full cfg chains ix db) (hcovers : full → Covers ix db) (hfits : Fits cfg ix db) :
    On (Held full cfg chains) (tick cfg o ⟨ix, db, 0⟩).2 := by
  have htick : Triple (fun s => s = ⟨ix, db, 0⟩) (tick cfg o)
      (fun _ => On (Held full cfg chains)) (On (Held full cfg chains)) := by
    refine Triple.bind (Triple.conseq (blockNumber_first ix db) (fun _ hs => hs) (fun _ _ hs => hs)
      ?_) fun head => ?_
    · rintro s ⟨hix, hdb⟩
      rw [On, hix, hdb]
      exact hheld
    · rintro s ⟨hat, rfl⟩
      have hadvance : Triple (On (Checked full cfg chains c))
          (advance cfg o (safeBlock cfg (o.chain 0).headNumber)) (fun _ => On (Held full cfg chains))
          (On (Held full cfg chains)) :=
        Triple.conseq (advance_held hnet hc hsees hsafe Kept.trivial Left.trivial)
          (fun _ hs => ⟨hs, True.intro⟩) (fun _ _ hs => hs.1) fun _ hs => hs.1
      exact Triple.bind (checkReorg_triple hnet hshared hc hsees hheld hcovers hfits htop)
        (fun _ => hadvance) s hat
  exact htick.state rfl

end Indexer

end ArkSwap.GoInternal
