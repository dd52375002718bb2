import ArkSwap.IndexerSync
import ArkSwap.Lib.Total

/-! A sync to the head on one chain ends, whatever ranges the node refuses: each of its
Ticks takes a smaller batch, rolls back or moves the cursor on. -/

namespace ArkSwap.GoInternal

open Prog

namespace Indexer

/-- A node that may refuse a query for its range, by the number of the call. -/
structure Node where
  outside : Outside
  refuse : Nat → Nat → Nat → Option String

namespace Node

/-- What is outside while the logs of a range are queried. -/
def querying (node : Node) (fromBlock toBlock : Nat) : Outside :=
  { node.outside with error := fun k =>
      (node.outside.error k).or (node.refuse k fromBlock toBlock) }

variable (cfg : Config) (node : Node)

def processRange (fromBlock toBlock : Nat) : Ix Unit := do
  let fetched ← Prog.attempt (fetchLogs cfg (node.querying fromBlock toBlock) fromBlock toBlock)
  match fetched with
  | .error e => refused e
  | .ok logs => indexLogs cfg node.outside toBlock logs

def advance (safe : Nat) : Ix Unit := do
  let fromBlock ← startBlock cfg node.outside
  if safe < fromBlock then pure ()
  else do
    let s ← Prog.get
    processRange cfg node fromBlock (rangeEnd fromBlock s.ix.batchSize safe)

def tick : Ix Unit := do
  let head ← blockNumber node.outside
  checkReorg cfg node.outside
  advance cfg node (safeBlock cfg head)

/-- A round of the loop; whether it returned. -/
def round : Ix Bool := do
  let done ← caughtUp cfg node.outside
  if done then pure true
  else do
    tick cfg node
    let _ ← request node.outside
    pure false

def syncToHead : Nat → Ix Bool
  | 0 => pure false
  | rounds + 1 => do
      let done ← round cfg node
      if done then pure true else syncToHead rounds

end Node

variable {cfg : Config} {node : Node} {o : Outside} {c : Chain} {limit : Nat}
variable {ix : Indexer} {db : Database} {s t : Sys} {n : Nat}

/-- A node that refuses nothing is what is outside of it. -/
theorem Node.syncToHead_eq (h : ∀ k fromBlock toBlock, node.refuse k fromBlock toBlock = none)
    (rounds : Nat) : Node.syncToHead cfg node rounds = Indexer.syncToHead cfg node.outside rounds := by
  have hquery : ∀ fromBlock toBlock, node.querying fromBlock toBlock = node.outside := by
    intro fromBlock toBlock
    simp only [querying, h, Option.or_none]
  have hrange : Node.processRange cfg node = Indexer.processRange cfg node.outside := by
    funext fromBlock toBlock
    rw [Node.processRange, hquery]
    rfl
  have htick : Node.tick cfg node = Indexer.tick cfg node.outside := by
    simp only [Node.tick, Indexer.tick, Node.advance, Indexer.advance, hrange]
  induction rounds with
  | zero => rfl
  | succ rounds ih =>
    rw [Node.syncToHead, Indexer.syncToHead, Node.round, htick, ih, bind_assoc]
    congr
    funext done
    cases done with
    | true => rfl
    | false =>
      simp only [Bool.false_eq_true, if_false, bind_assoc]
      rfl

/-- The reasons for which the store does not accept a write. -/
def rejections : List String :=
  ["database: writing indexer state", "database: inserting block", "database: upserting token",
    "database: upserting pair", "database: setting reserves", "database: snapshotting",
    "database: inserting swap", "database: inserting liquidity event", "database: rolling back",
    "database: dropping snapshots", "database: pruning snapshots"]

def Rejected (e : String) : Prop := e ∈ rejections

instance : DecidablePred Rejected := fun e => inferInstanceAs (Decidable (e ∈ rejections))

section Excused

variable {E : String → Prop} (hanswers : ∀ k, o.error k = none)
include hanswers

omit hanswers in
theorem nextCall_excused : Excused E nextCall :=
  Excused.bind Excused.get fun _ => Excused.bind (Excused.modify _) fun _ => Excused.pure _

theorem request_excused : Excused E (request o) := by
  refine Excused.bind nextCall_excused fun k => ?_
  rw [hanswers k]
  exact Excused.pure k

theorem query_excused {α : Type} (read : Database → α) : Excused E (query o read) :=
  Excused.bind (request_excused hanswers) fun _ => Excused.bind Excused.get fun _ => Excused.pure _

theorem headerByNumber_excused {b : Block} (hb : ∀ k, (o.chain k).headerAt n = some b) :
    Excused E (headerByNumber o n) := by
  refine Excused.bind (request_excused hanswers) fun k => ?_
  rw [hb k]
  exact Excused.pure b

theorem exec_excused {statement : Statement} (hreason : E statement.reason) :
    Excused E (exec o statement) := by
  refine Excused.bind (request_excused hanswers) fun _ => ?_
  refine Excused.bind Excused.get fun s => ?_
  by_cases ha : statement.allowed s.db = true
  · rw [if_pos ha]
    exact Excused.modify _
  · rw [if_neg ha]
    exact Excused.fail hreason

theorem inBlockTx_excused {fn : Ix Unit} (h : Excused E fn) : Excused E (inBlockTx o fn) := by
  refine Excused.bind (request_excused hanswers) fun _ => ?_
  refine Excused.bind Excused.get fun s => ?_
  refine Excused.bind (h.onFailure _) fun _ => ?_
  refine Excused.bind nextCall_excused fun k => ?_
  rw [hanswers k]
  exact Excused.pure ()

theorem writeLog_excused (header : Block) (l : Log) : Excused Rejected (writeLog cfg o header l) := by
  refine Excused.bind Excused.get fun s => ?_
  rcases ha : applyLog cfg header s.ix l with _ | ⟨statement, ix⟩
  · exact Excused.pure ()
  · refine Excused.bind (exec_excused hanswers ?_) fun _ => Excused.modify _
    cases applied_of_applyLog ha <;> exact of_decide_eq_true rfl

theorem writeSnapshots_excused (header : Block) (logs : List Log) :
    Excused Rejected (writeSnapshots cfg o header logs) := by
  refine Excused.bind Excused.get fun s => ?_
  exact Excused.forEach fun snap _ => exec_excused hanswers (of_decide_eq_true rfl)

theorem setCursor_excused (number : Nat) (header : Block) :
    Excused Rejected (setCursor cfg o number header) :=
  exec_excused hanswers (of_decide_eq_true rfl)

theorem processBlock_excused {header : Block} (hheader : ∀ k, (o.chain k).headerAt n = some header)
    (logs : List Log) : Excused Rejected (processBlock cfg o n logs) := by
  refine Excused.bind (headerByNumber_excused hanswers hheader) fun b => ?_
  refine Excused.bind ?_ fun tokens => ?_
  · intro s e t h
    have hnone := (@fetchTokens_triple cfg o s.ix s.db (createdTokens logs) [] []
      ⟨by simp, by simp, List.Pairwise.nil⟩ s ⟨rfl, rfl⟩).2
    exact (hnone e t h).elim
  · refine inBlockTx_excused hanswers ?_
    refine Excused.bind (exec_excused hanswers (of_decide_eq_true rfl)) fun _ => ?_
    refine Excused.bind (Excused.forEach fun t _ => exec_excused hanswers (of_decide_eq_true rfl)) fun _ => ?_
    refine Excused.bind (Excused.forEach fun l _ => writeLog_excused hanswers b l) fun _ => ?_
    refine Excused.bind (writeSnapshots_excused hanswers b logs) fun _ => ?_
    exact setCursor_excused hanswers n b

theorem rollBackTo_excused {b : Block} (hb : ∀ k, (o.chain k).headerAt n = some b) :
    Excused Rejected (rollBackTo cfg o n) := by
  refine inBlockTx_excused hanswers (Excused.bind ?_ fun _ => ?_)
  · refine Excused.forEach fun statement hmem => exec_excused hanswers ?_
    simp only [Database.rollbackFrom, List.mem_cons, List.not_mem_nil, or_false] at hmem
    rcases hmem with rfl | rfl | rfl | rfl | rfl | rfl | rfl <;> exact of_decide_eq_true rfl
  · refine Excused.bind (headerByNumber_excused hanswers hb) fun h => ?_
    exact setCursor_excused hanswers n h

theorem walkBack_excused (hheader : ∀ m ≤ n, ∃ b, ∀ k, (o.chain k).headerAt m = some b) :
    Excused E (walkBack cfg o n) := by
  induction n with
  | zero => exact Excused.pure 0
  | succ n ih =>
    have hrest : Excused E (walkBack cfg o n) := ih fun m hm => hheader m (Nat.le_succ_of_le hm)
    rw [walkBack]
    by_cases hle : n + 1 ≤ cfg.factoryDeployBlock
    · rw [if_pos hle]
      exact Excused.pure _
    · rw [if_neg hle]
      refine Excused.bind (query_excused hanswers _) fun stored => ?_
      rcases stored with _ | stored
      · exact hrest
      · obtain ⟨b, hb⟩ := hheader n (Nat.le_succ n)
        refine Excused.bind (headerByNumber_excused hanswers hb) fun h => ?_
        by_cases hh : h.hash = stored
        · rw [if_pos hh]
          exact Excused.pure n
        · rw [if_neg hh]
          exact hrest

theorem reloadPairs_excused : Excused E (reloadPairs o) :=
  Excused.bind (Excused.modify _) fun _ => Excused.bind (query_excused hanswers _) fun _ =>
    Excused.modify _

end Excused

/-- The cursor is off the chain, which makes a Tick roll back. -/
def Orphaned (cfg : Config) (c : Chain) (db : Database) : Prop :=
  ∃ st b, db.indexerState[cfg.chainID]? = some st ∧ c.headerAt st.lastProcessedBlock = some b ∧
    b.hash ≠ st.lastProcessedBlockHash

/-- The cursor stands at a height, with the hash of the chain's block there. -/
def CursorAt (cfg : Config) (c : Chain) (n : Nat) (db : Database) : Prop :=
  ∃ b, c.headerAt n = some b ∧ db.indexerState[cfg.chainID]? =
    some { chainID := cfg.chainID, lastProcessedBlock := n, lastProcessedBlockHash := b.hash }

theorem CursorAt.nextBlock (h : CursorAt cfg c n db) : nextBlock cfg db = n + 1 := by
  obtain ⟨b, -, hst⟩ := h
  rw [nextBlock_of_some hst]

theorem CursorAt.not_orphaned (h : CursorAt cfg c n db) : ¬Orphaned cfg c db := by
  obtain ⟨b, hb, hst⟩ := h
  rintro ⟨st, b', hst', hb', hne⟩
  obtain rfl := Option.some.inj (hst.symm.trans hst')
  obtain rfl := Option.some.inj (hb.symm.trans hb')
  exact hne rfl

theorem exists_headerAt (hc : c ≠ []) (hn : n ≤ c.headNumber) : ∃ b, c.headerAt n = some b := by
  have hpos := List.length_pos_iff.mpr hc
  rw [Chain.headNumber] at hn
  exact ⟨_, Chain.headerAt_eq_some.mpr ⟨_, List.getElem?_eq_getElem (by omega), rfl⟩⟩

section Fixed

variable (hanswers : ∀ k, o.error k = none) (hfixed : ∀ k, o.chain k = c) (hc : c ≠ [])
include hanswers hfixed hc

omit hanswers in
theorem headers (hn : n ≤ c.headNumber) : ∃ b, ∀ k, (o.chain k).headerAt n = some b := by
  obtain ⟨b, hb⟩ := exists_headerAt hc hn
  exact ⟨b, fun k => by rw [hfixed k, hb]⟩

theorem recover_total {st : IndexerState} (hst : st.lastProcessedBlock ≤ c.headNumber) :
    Total Rejected (On (At ix db)) (recover cfg o st) fun _ => On fun ix' db' =>
      ix'.batchSize = ix.batchSize ∧ ∃ m ≤ st.lastProcessedBlock, CursorAt cfg c m db' := by
  have hheaders : ∀ m ≤ st.lastProcessedBlock, ∃ b, ∀ k, (o.chain k).headerAt m = some b :=
    fun m hm => headers hfixed hc (Nat.le_trans hm hst)
  refine Total.bind (Total.of_excused (walkBack_excused hanswers hheaders) walkBack_le) fun m => ?_
  rintro s ⟨hat, hm⟩
  obtain ⟨b, hb⟩ := hheaders m hm
  refine Total.bind (Total.of_excused (rollBackTo_excused hanswers hb) (rollBackTo_triple ix db))
    (fun _ => ?_) s hat
  refine Total.conseq (Total.of_excused (reloadPairs_excused hanswers) (reloadPairs_batch
    (D := fun db' => ∃ m ≤ st.lastProcessedBlock, CursorAt cfg c m db'))) ?_ fun _ _ hs => hs
  rintro t ⟨hix, db₁, k, b', -, hb', hdb⟩
  rw [hfixed k] at hb'
  refine ⟨congrArg Indexer.batchSize hix, m, hm, b', hb', ?_⟩
  rw [hdb]
  exact cursorAt_effect cfg m b' db₁

theorem checkReorg_total (htop : ∀ st, db.indexerState[cfg.chainID]? = some st →
    st.lastProcessedBlock ≤ c.headNumber) :
    Total Rejected (On (At ix db)) (checkReorg cfg o) fun _ => On fun ix' db' =>
      ix'.batchSize = ix.batchSize ∧ nextBlock cfg db' ≤ nextBlock cfg db ∧
        ¬Orphaned cfg c db' ∧ (¬Orphaned cfg c db → db' = db) := by
  refine Total.bind (Total.of_excused (query_excused hanswers _) query_triple) fun st => ?_
  rintro s ⟨⟨hix, hdb⟩, hst⟩
  rw [hdb] at hst
  rcases st with _ | st
  · refine Total.pure (P := On (At ix db)) (fun t ht => ?_) s ⟨hix, hdb⟩
    obtain ⟨hix', hdb'⟩ := ht
    rw [On, hix', hdb']
    refine ⟨rfl, Nat.le_refl _, ?_, fun _ => rfl⟩
    rintro ⟨st, b, hst', -⟩
    cases hst.trans hst'
  · have hle := htop st hst.symm
    obtain ⟨b, hb⟩ := headers hfixed hc hle
    refine Total.bind (Total.of_excused (headerByNumber_excused hanswers hb)
      (headerByNumber_triple (P := At ix db))) (fun b' => ?_) s ⟨hix, hdb⟩
    rintro t ⟨⟨hix', hdb'⟩, k, hk⟩
    rw [hfixed k] at hk
    by_cases hhash : b'.hash = st.lastProcessedBlockHash
    · rw [if_pos hhash]
      refine Total.pure (P := On (At ix db)) (fun r hr => ?_) t ⟨hix', hdb'⟩
      obtain ⟨hix₂, hdb₂⟩ := hr
      rw [On, hix₂, hdb₂]
      refine ⟨rfl, Nat.le_refl _, ?_, fun _ => rfl⟩
      rintro ⟨st', b₂, hst', hb₂, hne⟩
      obtain rfl := Option.some.inj (hst.trans hst')
      obtain rfl := Option.some.inj (hk.symm.trans hb₂)
      exact hne hhash
    · rw [if_neg hhash]
      refine Total.conseq (recover_total hanswers hfixed hc hle) (fun _ hr => hr) ?_ t ⟨hix', hdb'⟩
      rintro - r ⟨hbatch, m, hm, hcursor⟩
      have hnext : nextBlock cfg r.db ≤ nextBlock cfg db := by
        rw [hcursor.nextBlock, nextBlock_of_some hst.symm]
        omega
      refine ⟨hbatch, hnext, hcursor.not_orphaned, fun hnot => ?_⟩
      exact (hnot ⟨st, b', hst.symm, hk, hhash⟩).elim

theorem indexLogs_total {logs : List Log} {toBlock batch : Nat} (hto : toBlock ≤ c.headNumber)
    (hlogs : ∀ l ∈ logs, l.blockNumber ≤ c.headNumber) :
    Total Rejected (On fun ix _ => ix.batchSize = batch) (indexLogs cfg o toBlock logs) fun _ =>
      On fun ix db => ix.batchSize = batch ∧ CursorAt cfg c toBlock db := by
  have hblocks : Total Rejected (On fun ix _ => ix.batchSize = batch)
      (Prog.forEach (fun bn => processBlock cfg o bn ((sortLogs logs).filter fun l =>
        l.blockNumber = bn)) (blockNums (sortLogs logs)))
      fun _ => On fun ix _ => ix.batchSize = batch := by
    refine Total.of_excused (Excused.forEach fun bn hbn => ?_)
      (Triple.forEach (E := fun _ => True) (fun _ => On fun ix _ => ix.batchSize = batch)
        (fun bn rest => ?_) _)
    · obtain ⟨l, hl, rfl⟩ := mem_blockNums.mp hbn
      obtain ⟨b, hb⟩ := headers hfixed hc (hlogs l (mem_sortLogs.mp hl))
      exact processBlock_excused hanswers hb _
    · intro s hs
      refine Triple.conseq (processBlock_triple s.ix s.db) (fun _ hs => hs) ?_ (fun _ _ => True.intro)
        s ⟨rfl, rfl⟩
      rintro - t ⟨k, header, tokens, -, -, hrun⟩
      have hmemory := indexBlock_memory hrun
      rw [On, hmemory, foldl_memoryLog_batchSize]
      exact hs
  refine Total.bind hblocks fun _ => ?_
  obtain ⟨b, hb⟩ := headers hfixed hc hto
  refine Total.bind (Total.of_excused (headerByNumber_excused hanswers hb) headerByNumber_triple)
    fun head => ?_
  refine Total.of_excused (inBlockTx_excused hanswers (setCursor_excused hanswers toBlock head))
    (inBlockTx_triple (E := fun _ _ => True) (fun before => ?_) (fun _ _ _ => True.intro)
      fun _ _ _ => True.intro)
  refine Triple.conseq (exec_triple (P := fun ix _ => ix.batchSize = batch ∧
    ∃ k, (o.chain k).headerAt toBlock = some head) (Q := fun ix db => ix.batchSize = batch ∧
      CursorAt cfg c toBlock db) ?_) (fun s hs => hs.1) (fun _ s hs => ⟨hs, True.intro⟩)
      fun _ _ => True.intro
  rintro ix db ⟨hbatch, k, hk⟩ -
  rw [hfixed k] at hk
  exact ⟨hbatch, head, hk, cursorAt_effect cfg toBlock head db⟩

end Fixed

theorem refused_total {E : String → Prop} {e : String} (he : rangeTooLarge e = true)
    (hbatch : 1 < ix.batchSize) :
    Total E (On (At ix db)) (refused e) fun _ =>
      On (At { ix with batchSize := ix.batchSize / 2 } db) := by
  rintro s ⟨rfl, rfl⟩
  have hrun : refused e s = (.ok (), { s with ix := { s.ix with batchSize := s.ix.batchSize / 2 } }) := by
    simp only [refused, Prog.get, bind, he, hbatch, and_self, if_true]
    rfl
  rw [hrun]
  constructor
  · intro a t ht
    cases ht
    exact ⟨rfl, rfl⟩
  · intro e' t ht
    cases ht

namespace Node

/-- The node follows one chain and answers, but for ranges wider than a limit: those it
may refuse in words that are understood. -/
structure Lenient (node : Node) (c : Chain) (limit : Nat) : Prop where
  fixed : ∀ k, node.outside.chain k = c
  answers : ∀ k, node.outside.error k = none
  refuses : ∀ k fromBlock toBlock e, node.refuse k fromBlock toBlock = some e →
    limit < toBlock + 1 - fromBlock ∧ rangeTooLarge e = true

variable {fromBlock toBlock safe : Nat}

theorem Lenient.fetchLogs_excused (h : Lenient node c limit) :
    Excused (fun e => limit < toBlock + 1 - fromBlock ∧ rangeTooLarge e = true)
      (fetchLogs cfg (node.querying fromBlock toBlock) fromBlock toBlock) := by
  have hrequest : Excused (fun e => limit < toBlock + 1 - fromBlock ∧ rangeTooLarge e = true)
      (request (node.querying fromBlock toBlock)) := by
    refine Excused.bind nextCall_excused fun k => ?_
    rcases he : (node.querying fromBlock toBlock).error k with _ | e
    · exact Excused.pure k
    · change (node.outside.error k).or (node.refuse k fromBlock toBlock) = some e at he
      rw [h.answers k, Option.none_or] at he
      exact Excused.fail (h.refuses k fromBlock toBlock e he)
  have hfilter : ∀ addresses topics,
      Excused (fun e => limit < toBlock + 1 - fromBlock ∧ rangeTooLarge e = true)
        (filterLogs (node.querying fromBlock toBlock) fromBlock toBlock addresses topics) :=
    fun _ _ => Excused.bind hrequest fun _ => Excused.pure _
  refine Excused.bind (hfilter _ _) fun factoryLogs => ?_
  refine Excused.bind Excused.get fun s => ?_
  by_cases hnil : s.ix.knownPairs.toList.map Prod.fst ++ announced factoryLogs = []
  · simp only [hnil, if_true]
    exact Excused.pure factoryLogs
  · simp only [hnil, if_false]
    exact Excused.bind (hfilter _ _) fun pairLogs => Excused.pure _

/-- The batch is halved, or all of the range is indexed. -/
theorem Lenient.processRange_total (h : Lenient node c limit) (hlimit : 1 ≤ limit) (hc : c ≠ [])
    (hnumber : ∀ n, ∀ l ∈ c.logsAt n, l.blockNumber = n) (hto : toBlock ≤ c.headNumber)
    (hwidth : toBlock + 1 ≤ fromBlock + ix.batchSize) :
    Total Rejected (On (At ix db)) (processRange cfg node fromBlock toBlock) fun _ =>
      On fun ix' db' => (1 < ix.batchSize ∧ ix'.batchSize = ix.batchSize / 2 ∧ db' = db) ∨
        (ix'.batchSize = ix.batchSize ∧ CursorAt cfg c toBlock db') := by
  have hchain : ∀ k, ∀ n ≤ toBlock, ((node.querying fromBlock toBlock).chain k)[n]? = (c)[n]? :=
    fun k n _ => congrArg (·[n]?) (h.fixed k)
  refine Total.bind (Total.attempt h.fetchLogs_excused (fetchLogs_triple hchain (P := At ix db)))
    fun fetched => ?_
  rcases fetched with e | logs
  · rintro s ⟨-, herr⟩
    obtain ⟨⟨hix, hdb⟩, hwide, hlarge⟩ := herr e rfl
    have hbatch : 1 < ix.batchSize := by omega
    refine Total.conseq (refused_total hlarge hbatch) (fun _ hs => hs) ?_ s ⟨hix, hdb⟩
    rintro - t ⟨hix', hdb'⟩
    exact .inl ⟨hbatch, congrArg Indexer.batchSize hix', hdb'⟩
  · rintro s ⟨hok, -⟩
    obtain ⟨⟨hix, hdb⟩, hlogs⟩ := hok logs rfl
    have hin : ∀ l ∈ logs, l.blockNumber ≤ c.headNumber := by
      intro l hl
      rw [hlogs, fetched, List.mem_append, Chain.mem_filterLogs, Chain.mem_filterLogs] at hl
      rcases hl with ⟨⟨n, -, hn, hmem⟩, -⟩ | ⟨⟨n, -, hn, hmem⟩, -⟩ <;>
      · rw [hnumber n l hmem]
        omega
    refine Total.conseq (indexLogs_total h.answers h.fixed hc hto hin) (fun _ hs => hs) ?_ s
      (congrArg Indexer.batchSize hix)
    exact fun _ t ht => .inr ht

end Node

/-- What a Tick on the chain does: it rolls back, takes a smaller batch or moves the cursor
on, and leaves a cursor on the chain that is not past the safe block. -/
structure Progress (cfg : Config) (c : Chain) (s t : Sys) : Prop where
  batch : 0 < t.ix.batchSize ∧ t.ix.batchSize ≤ s.ix.batchSize
  cursor : ∀ st, t.db.indexerState[cfg.chainID]? = some st →
    st.lastProcessedBlock ≤ safeBlock cfg c.headNumber
  settled : ¬Orphaned cfg c t.db
  step : Orphaned cfg c s.db ∨
    t.ix.batchSize < s.ix.batchSize ∧ nextBlock cfg t.db = nextBlock cfg s.db ∨
    t.ix.batchSize = s.ix.batchSize ∧ nextBlock cfg s.db < nextBlock cfg t.db

theorem rangeEnd_width {fromBlock batchSize safe : Nat} (hbatch : 0 < batchSize)
    (hfits : fromBlock + batchSize ≤ 2 ^ 64) :
    rangeEnd fromBlock batchSize safe + 1 ≤ fromBlock + batchSize := by
  have hend : (fromBlock + batchSize + (2 ^ 64 - 1)) % 2 ^ 64 = fromBlock + batchSize - 1 := by
    omega
  rw [rangeEnd, hend]
  split <;> omega

namespace Node

theorem Lenient.advance_total (h : Lenient node c limit) (hlimit : 1 ≤ limit) (hc : c ≠ [])
    (hnumber : ∀ n, ∀ l ∈ c.logsAt n, l.blockNumber = n) (hbatch : 0 < ix.batchSize)
    (hfits : Fits cfg ix db) (hnext : nextBlock cfg db ≤ safeBlock cfg c.headNumber) :
    Total Rejected (On (At ix db)) (advance cfg node (safeBlock cfg c.headNumber)) fun _ =>
      On fun ix' db' => (1 < ix.batchSize ∧ ix'.batchSize = ix.batchSize / 2 ∧ db' = db) ∨
        (ix'.batchSize = ix.batchSize ∧
          ∃ n, nextBlock cfg db ≤ n ∧ n ≤ safeBlock cfg c.headNumber ∧ CursorAt cfg c n db') := by
  have hstart : Total Rejected (On (At ix db)) (startBlock cfg node.outside) fun n =>
      On fun ix' db' => At ix db ix' db' ∧ n = nextBlock cfg db' := by
    refine Total.of_excused (Excused.bind (query_excused h.answers _) fun st => ?_) startBlock_triple
    rcases st with _ | st <;> exact Excused.pure _
  refine Total.bind hstart fun fromBlock => ?_
  rintro s ⟨⟨hix, hdb⟩, rfl⟩
  rw [hdb, if_neg (Nat.not_lt_of_le hnext)]
  refine Total.bind (Total.of_excused Excused.get (Triple.get (P := On (At ix db))
    (R := fun r s => On (At ix db) s ∧ r = s) (E := fun _ => True) fun _ hs => ⟨hs, rfl⟩))
    (fun r => ?_) s ⟨hix, hdb⟩
  rintro t ⟨⟨hix', hdb'⟩, rfl⟩
  rw [hix']
  obtain ⟨hle, hsafe⟩ := rangeEnd_bounds hbatch hfits hnext
  have hwidth := @rangeEnd_width _ _ (safeBlock cfg c.headNumber) hbatch hfits
  refine Total.conseq (h.processRange_total hlimit hc hnumber
    (Nat.le_trans hsafe (safeBlock_le cfg _)) hwidth) (fun _ hs => hs) ?_ r ⟨hix', hdb'⟩
  rintro - u (hsmaller | ⟨hsame, hcursor⟩)
  · exact .inl hsmaller
  · exact .inr ⟨hsame, _, hle, hsafe, hcursor⟩

theorem Lenient.tick_total (h : Lenient node c limit) (hlimit : 1 ≤ limit) (hc : c ≠ [])
    (hnumber : ∀ n, ∀ l ∈ c.logsAt n, l.blockNumber = n) (hbatch : 0 < s.ix.batchSize)
    (hfits : Fits cfg s.ix s.db) (hnext : nextBlock cfg s.db ≤ safeBlock cfg c.headNumber) :
    Total Rejected (On (At s.ix s.db)) (tick cfg node) fun _ => Progress cfg c s := by
  have hsafe := safeBlock_le cfg c.headNumber
  have htop : ∀ st, s.db.indexerState[cfg.chainID]? = some st →
      st.lastProcessedBlock ≤ c.headNumber :=
    fun st hst => (Nat.lt_of_lt_of_le (lt_of_nextBlock_le hnext hst) hsafe).le
  refine Total.bind (Total.of_excused (Excused.bind (request_excused h.answers) fun _ =>
    Excused.pure _) blockNumber_triple) fun head => ?_
  rintro t ⟨hat, k, rfl⟩
  rw [h.fixed k]
  refine Total.bind (checkReorg_total h.answers h.fixed hc htop) (fun _ => ?_) t hat
  rintro r ⟨hsame, hback, hsettled, hkept⟩
  have hbatch' : 0 < r.ix.batchSize := by omega
  have hfits' : Fits cfg r.ix r.db := by
    rw [Fits] at hfits ⊢
    omega
  refine Total.conseq (h.advance_total hlimit hc hnumber hbatch' hfits' (by omega))
    (fun _ hs => hs) ?_ r ⟨rfl, rfl⟩
  rintro - u (⟨hone, hhalf, hdb⟩ | ⟨hsame', n, hle, hn, hcursor⟩)
  · refine ⟨by omega, ?_, by rwa [hdb], ?_⟩
    · intro st hst
      rw [hdb] at hst
      exact (lt_of_nextBlock_le (Nat.le_trans hback hnext) hst).le
    · by_cases horphaned : Orphaned cfg c s.db
      · exact .inl horphaned
      · refine .inr (.inl ⟨by omega, ?_⟩)
        rw [hdb, hkept horphaned]
  · refine ⟨by omega, ?_, hcursor.not_orphaned, ?_⟩
    · intro st hst
      have hnext' := hcursor.nextBlock
      exact Nat.le_trans (Nat.le_of_lt_succ (lt_of_nextBlock_le hnext'.le hst)) hn
    · by_cases horphaned : Orphaned cfg c s.db
      · exact .inl horphaned
      · refine .inr (.inr ⟨by omega, ?_⟩)
        rw [hcursor.nextBlock, ← hkept horphaned]
        omega

section Rounds

variable (hlimit : 1 ≤ limit) (hc : c ≠ []) (hnumber : ∀ n, ∀ l ∈ c.logsAt n, l.blockNumber = n)
include hlimit hc hnumber

omit hlimit hc hnumber in
theorem Lenient.caughtUp_total {E : String → Prop} (h : Lenient node c limit) :
    Total E (On (At ix db)) (caughtUp cfg node.outside) fun done =>
      On fun ix' db' => At ix db ix' db' ∧
        (done = true ↔ safeBlock cfg c.headNumber < nextBlock cfg db') := by
  refine Total.of_excused ?_ (caughtUp_triple h.fixed)
  refine Excused.bind (Excused.bind (request_excused h.answers) fun _ => Excused.pure _)
    fun head => ?_
  refine Excused.bind (Excused.bind (query_excused h.answers _) fun st => ?_) fun _ => Excused.pure _
  rcases st with _ | st <;> exact Excused.pure _

/-- A round returns on a cursor at the safe block or above, and makes progress on one below. -/
theorem Lenient.round_total (h : Lenient node c limit) (hbatch : 0 < s.ix.batchSize)
    (hfits : nextBlock cfg s.db ≤ safeBlock cfg c.headNumber → Fits cfg s.ix s.db) :
    Total Rejected (On (At s.ix s.db)) (round cfg node) fun done t =>
      (done = true ↔ safeBlock cfg c.headNumber < nextBlock cfg s.db) ∧
        (done = false → Progress cfg c s t) := by
  refine Total.bind h.caughtUp_total fun done => ?_
  rintro t ⟨⟨hix, hdb⟩, hdone⟩
  rw [hdb] at hdone
  cases done with
  | true =>
    rw [if_pos rfl]
    exact Total.pure (P := fun _ => True) (fun _ _ => ⟨hdone, fun hfalse => by cases hfalse⟩) t
      True.intro
  | false =>
    rw [if_neg Bool.false_ne_true]
    have hnext : nextBlock cfg s.db ≤ safeBlock cfg c.headNumber := by
      by_contra hlt
      exact absurd (hdone.mpr (Nat.lt_of_not_le hlt)) Bool.false_ne_true
    refine Total.bind (h.tick_total hlimit hc hnumber hbatch (hfits hnext) hnext) (fun _ => ?_) t
      ⟨hix, hdb⟩
    rintro r ⟨hbatch', hcursor, hsettled, hstep⟩
    refine Total.bind (Total.of_excused (request_excused h.answers) (request_triple (P := At r.ix r.db)))
      (fun _ => Total.pure fun u hu => ⟨hdone, fun _ => ?_⟩) r ⟨rfl, rfl⟩
    obtain ⟨hix', hdb'⟩ := hu
    rw [← hix'] at hbatch' hstep
    rw [← hdb'] at hcursor hsettled hstep
    exact ⟨hbatch', hcursor, hsettled, hstep⟩

end Rounds

variable (cfg node) in
/-- The state after a number of rounds. -/
def after (n : Nat) (s : Sys) : Sys := (fun t => (round cfg node t).2)^[n] s

theorem after_succ (n : Nat) (s : Sys) :
    after cfg node (n + 1) s = after cfg node n (round cfg node s).2 := rfl

/-- What a sync is granted: ranges that end where they are meant to, and a database that
accepts every write. -/
structure Granted (cfg : Config) (node : Node) (c : Chain) (s : Sys) : Prop where
  batch : 0 < s.ix.batchSize
  fits : ∀ n, nextBlock cfg (after cfg node n s).db ≤ safeBlock cfg c.headNumber →
    Fits cfg (after cfg node n s).ix (after cfg node n s).db
  accepts : ∀ rounds e, (syncToHead cfg node rounds s).1 = .error e → ¬Rejected e

/-- A sync makes progress for a number of rounds, with at most the first of them rolling
back, and returns in the next. -/
structure CatchesUp (cfg : Config) (node : Node) (c : Chain) (s : Sys) (n : Nat) : Prop where
  returns : ∀ rounds, n < rounds → (syncToHead cfg node rounds s).1 = .ok true
  progress : ∀ i < n, (round cfg node (after cfg node i s)).1 = .ok false ∧
    Progress cfg c (after cfg node i s) (after cfg node (i + 1) s)
  rollback : ∀ i, 0 < i → i ≤ n → ¬Orphaned cfg c (after cfg node i s).db

theorem after_of_round (h : round cfg node s = (.ok false, t)) (n : Nat) :
    after cfg node (n + 1) s = after cfg node n t := by
  rw [after_succ, h]

theorem syncToHead_of_round {rounds : Nat} (h : round cfg node s = (.ok false, t)) :
    syncToHead cfg node (rounds + 1) s = syncToHead cfg node rounds t :=
  bind_of_ok _ h

theorem Granted.next (h : Granted cfg node c s) (hround : round cfg node s = (.ok false, t))
    (hprogress : Progress cfg c s t) : Granted cfg node c t := by
  refine ⟨hprogress.batch.1, fun n => ?_, fun rounds e he => ?_⟩
  · rw [← after_of_round hround]
    exact h.fits (n + 1)
  · rw [← syncToHead_of_round hround] at he
    exact h.accepts (rounds + 1) e he

theorem CatchesUp.step (hround : round cfg node s = (.ok false, t)) (hprogress : Progress cfg c s t)
    (h : CatchesUp cfg node c t n) : CatchesUp cfg node c s (n + 1) := by
  constructor
  · intro rounds hlt
    obtain ⟨rounds, rfl⟩ : ∃ k, rounds = k + 1 := ⟨rounds - 1, by omega⟩
    rw [syncToHead_of_round hround]
    exact h.returns rounds (by omega)
  · intro i hi
    cases i with
    | zero =>
      refine ⟨congrArg Prod.fst hround, ?_⟩
      rw [after_of_round hround]
      exact hprogress
    | succ i =>
      rw [after_of_round hround, after_of_round hround]
      exact h.progress i (by omega)
  · intro i hpos hi
    obtain ⟨i, rfl⟩ : ∃ k, i = k + 1 := ⟨i - 1, by omega⟩
    rw [after_of_round hround]
    cases i with
    | zero => exact hprogress.settled
    | succ i => exact h.rollback (i + 1) (by omega) (by omega)

theorem CatchesUp.done (hround : (round cfg node s).1 = .ok true) : CatchesUp cfg node c s 0 := by
  constructor
  · intro rounds hpos
    obtain ⟨rounds, rfl⟩ : ∃ k, rounds = k + 1 := ⟨rounds - 1, by omega⟩
    have hrun : round cfg node s = (.ok true, (round cfg node s).2) := Prod.ext hround rfl
    exact congrArg Prod.fst (bind_of_ok _ hrun)
  · intro i hi
    cases hi
  · intro i hpos hi
    omega

section Rounds

variable (hlimit : 1 ≤ limit) (hc : c ≠ []) (hnumber : ∀ n, ∀ l ∈ c.logsAt n, l.blockNumber = n)
include hlimit hc hnumber

theorem Granted.round (hgranted : Granted cfg node c s) (h : Lenient node c limit) :
    (round cfg node s).1 = .ok true ∨
      nextBlock cfg s.db ≤ safeBlock cfg c.headNumber ∧
        ∃ t, Node.round cfg node s = (.ok false, t) ∧ Progress cfg c s t := by
  obtain ⟨hok, herr⟩ := h.round_total hlimit hc hnumber hgranted.batch (hgranted.fits 0) s ⟨rfl, rfl⟩
  rcases hround : Node.round cfg node s with ⟨e | done, t⟩
  · have hsync : (syncToHead cfg node 1 s).1 = .error e := congrArg Prod.fst (bind_of_error _ hround)
    exact (hgranted.accepts 1 e hsync (herr e t hround)).elim
  · obtain ⟨hdone, hprogress⟩ := hok done t hround
    cases done with
    | true => exact .inl rfl
    | false =>
      refine .inr ⟨?_, t, rfl, hprogress rfl⟩
      by_contra hlt
      exact absurd (hdone.mpr (Nat.lt_of_not_le hlt)) Bool.false_ne_true

/-- The blocks that are left and the batch, of which every Tick on the chain takes some. -/
def remaining (cfg : Config) (c : Chain) (s : Sys) : Nat :=
  safeBlock cfg c.headNumber + 1 - nextBlock cfg s.db + s.ix.batchSize

theorem catchesUp_of_settled (h : Lenient node c limit) (hgranted : Granted cfg node c s)
    (hsettled : ¬Orphaned cfg c s.db) : ∃ n, CatchesUp cfg node c s n := by
  induction hm : remaining cfg c s using Nat.strong_induction_on generalizing s with
  | h m ih =>
    rcases hgranted.round hlimit hc hnumber h with hdone | ⟨hnext, t, hround, hprogress⟩
    · exact ⟨0, CatchesUp.done hdone⟩
    · have hless : remaining cfg c t < m := by
        rw [← hm, remaining, remaining]
        rcases hprogress.step with horphaned | ⟨hsmaller, hsame⟩ | ⟨hsame, hfurther⟩
        · exact (hsettled horphaned).elim
        · omega
        · omega
      obtain ⟨n, hn⟩ := ih _ hless (hgranted.next hround hprogress) hprogress.settled rfl
      exact ⟨n + 1, hn.step hround hprogress⟩

theorem syncToHead_returns (h : Lenient node c limit) (hgranted : Granted cfg node c s) :
    ∃ n, CatchesUp cfg node c s n := by
  rcases hgranted.round hlimit hc hnumber h with hdone | ⟨-, t, hround, hprogress⟩
  · exact ⟨0, CatchesUp.done hdone⟩
  · obtain ⟨n, hn⟩ := catchesUp_of_settled hlimit hc hnumber h (hgranted.next hround hprogress)
      hprogress.settled
    exact ⟨n + 1, hn.step hround hprogress⟩

end Rounds

/-- A sync that has caught up stays where it is. -/
theorem Granted.of_caughtUp (h : Lenient node c limit) (hbatch : 0 < s.ix.batchSize)
    (hcaught : safeBlock cfg c.headNumber < nextBlock cfg s.db) : Granted cfg node c s := by
  have hround : ∀ t, On (At s.ix s.db) t →
      ∃ r, Node.round cfg node t = (.ok true, r) ∧ On (At s.ix s.db) r := by
    intro t ht
    obtain ⟨hok, herr⟩ := h.caughtUp_total (E := fun _ => False) t ht
    rcases hrun : caughtUp cfg node.outside t with ⟨e | done, r⟩
    · exact (herr e r hrun).elim
    · obtain ⟨⟨hix, hdb⟩, hdone⟩ := hok done r hrun
      rw [hdb] at hdone
      obtain rfl := hdone.mpr hcaught
      exact ⟨r, bind_of_ok _ hrun, hix, hdb⟩
  have hstays : ∀ n, ∀ t, On (At s.ix s.db) t → On (At s.ix s.db) (after cfg node n t) := by
    intro n
    induction n with
    | zero => exact fun _ ht => ht
    | succ n ih =>
      intro t ht
      obtain ⟨r, hr, hstay⟩ := hround t ht
      rw [after_succ, hr]
      exact ih r hstay
  refine ⟨hbatch, fun n hnext => ?_, fun rounds e he => ?_⟩
  · obtain ⟨-, hdb⟩ := hstays n s ⟨rfl, rfl⟩
    rw [hdb] at hnext
    exact absurd hcaught (Nat.not_lt_of_le hnext)
  · cases rounds with
    | zero => cases he
    | succ rounds =>
      obtain ⟨r, hr, -⟩ := hround s ⟨rfl, rfl⟩
      rw [show syncToHead cfg node (rounds + 1) s = (.ok true, r) from bind_of_ok _ hr] at he
      cases he

theorem Granted.prev (hbatch : 0 < s.ix.batchSize) (hfits : Fits cfg s.ix s.db)
    (hround : Node.round cfg node s = (.ok false, t)) (h : Granted cfg node c t) :
    Granted cfg node c s := by
  refine ⟨hbatch, fun n => ?_, fun rounds e he => ?_⟩
  · cases n with
    | zero => exact fun _ => hfits
    | succ n =>
      rw [after_of_round hround]
      exact h.fits n
  · cases rounds with
    | zero => cases he
    | succ rounds =>
      rw [syncToHead_of_round hround] at he
      exact h.accepts rounds e he

/-- A sync is granted what its rounds are seen to be until it has caught up. -/
theorem granted_of_rounds (h : Lenient node c limit) (hbatch : 0 < (after cfg node n s).ix.batchSize)
    (hrounds : ∀ i < n, 0 < (after cfg node i s).ix.batchSize ∧
      Fits cfg (after cfg node i s).ix (after cfg node i s).db ∧
        (round cfg node (after cfg node i s)).1 = .ok false)
    (hcaught : safeBlock cfg c.headNumber < nextBlock cfg (after cfg node n s).db) :
    Granted cfg node c s := by
  induction n generalizing s with
  | zero => exact Granted.of_caughtUp h hbatch hcaught
  | succ n ih =>
    obtain ⟨hpos, hfits, hround⟩ := hrounds 0 (Nat.succ_pos n)
    exact Granted.prev hpos hfits (Prod.ext hround rfl)
      (ih hbatch (fun i hi => hrounds (i + 1) (Nat.succ_lt_succ hi)) hcaught)

end Node

section Fork

open GoInternal.Fork

/-- A node that answers for one block at a time. -/
def narrow : Node :=
  { outside := Outside.calm quiet
    refuse := fun _ fromBlock toBlock =>
      if toBlock ≤ fromBlock then none else some "block range is too wide" }

theorem narrow_lenient : narrow.Lenient quiet 1 := by
  refine ⟨fun _ => rfl, fun _ => rfl, fun k fromBlock toBlock e he => ?_⟩
  change (if toBlock ≤ fromBlock then none else some "block range is too wide") = some e at he
  split at he
  · cases he
  · cases he
    exact ⟨by omega, by decide +kernel⟩

def unsynced : Sys :=
  { ix := { Indexer.new Fork.cfg with batchSize := 2 }, db := Database.empty, calls := 0 }

theorem unsynced_granted : Node.Granted Fork.cfg narrow quiet unsynced :=
  Node.granted_of_rounds (n := 3) narrow_lenient (by decide +kernel) (by decide +kernel)
    (by decide +kernel)

theorem unsynced_returns : ∃ n, Node.CatchesUp Fork.cfg narrow quiet unsynced n :=
  Node.syncToHead_returns (Nat.le_refl 1) (by decide)
    (network.wellFormed quiet quiet_mem).blockNumber narrow_lenient unsynced_granted

end Fork

end Indexer

end ArkSwap.GoInternal
