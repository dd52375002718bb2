import ArkSwap.IndexerCatchUp
import ArkSwap.Sdk

/-! The range of a Tick in unsigned 64-bit arithmetic, from the settings of the environment,
the head and the stored cursor: when its end wraps, and what a Tick does to the cursor when
it does not. -/

namespace ArkSwap.GoInternal

open Prog

structure Settings where
  chainID : UInt64
  rpcURL : Text
  factoryAddress : Text
  factoryDeployBlock : UInt64
  wkashAddress : Text
  databaseURL : Text
  confirmations : UInt64
  blockBatchSize : UInt64
  deriving DecidableEq

/-- Why a configuration is refused; the text of an address stands in its message. -/
inductive ConfigError
  | message (text : String)
  | notAddress (name : String) (value : Text)
  deriving DecidableEq

namespace Settings

def addressRe : Text → Bool
  | '0' :: 'x' :: digits => digits.length = 40 ∧ digits.all fun c =>
      ('0' ≤ c ∧ c ≤ '9') ∨ ('a' ≤ c ∧ c ≤ 'f') ∨ ('A' ≤ c ∧ c ≤ 'F')
  | _ => false

def validateForIndexer (c : Settings) : Except ConfigError Unit :=
  if c.chainID = 0 then .error (.message "config: ARK_EVM_CHAIN_ID is required")
  else if c.rpcURL = [] then .error (.message "config: ARK_RPC_URL is required")
  else if addressRe c.factoryAddress = false then
    .error (.notAddress "ARKSWAP_FACTORY_ADDRESS" c.factoryAddress)
  else if addressRe c.wkashAddress = false then .error (.notAddress "WKASH_ADDRESS" c.wkashAddress)
  else if c.factoryDeployBlock = 0 then
    .error (.message "config: ARKSWAP_FACTORY_DEPLOYMENT_BLOCK is required (never scan from genesis)")
  else if c.databaseURL = [] then .error (.message "config: DATABASE_URL is required")
  else if c.blockBatchSize = 0 then .error (.message "config: BLOCK_BATCH_SIZE must be > 0")
  else .ok ()

def config (c : Settings) (cfg : Config) : Config :=
  { cfg with
    chainID := c.chainID.toNat
    factoryDeployBlock := c.factoryDeployBlock.toNat
    confirmations := c.confirmations.toNat
    blockBatchSize := c.blockBatchSize.toNat }

/-- The batch that a refused range leaves. -/
def halved (batchSize : UInt64) : UInt64 := if 1 < batchSize then batchSize / 2 else batchSize

def batchAfter (c : Settings) (refusals : Nat) : UInt64 := halved^[refusals] c.blockBatchSize

/-- The next block, by the cursor as it is stored: a `BIGINT` that is not negative. -/
def startBlock (c : Settings) (cursor : Option (Fin (2 ^ 63))) : UInt64 :=
  match cursor with
  | none => c.factoryDeployBlock
  | some lastProcessedBlock => UInt64.ofNat lastProcessedBlock + 1

def safeBlock (c : Settings) (head : UInt64) : UInt64 :=
  if head < c.confirmations then 0 else head - c.confirmations

/-- The arguments that `Tick` calls `processRange` with, if it does. -/
def tickRange (c : Settings) (batchSize head : UInt64) (cursor : Option (Fin (2 ^ 63))) :
    Option (UInt64 × UInt64) :=
  let safe := c.safeBlock head
  let fromBlock := c.startBlock cursor
  if safe < fromBlock then none
  else
    let toBlock := fromBlock + batchSize - 1
    some (fromBlock, if safe < toBlock then safe else toBlock)

/-- What is meant of the range of a Tick. -/
structure Exact (c : Settings) (batchSize head : UInt64) (cursor : Option (Fin (2 ^ 63)))
    (fromBlock toBlock : UInt64) : Prop where
  start : fromBlock.toNat = cursor.elim c.factoryDeployBlock.toNat fun n => n.val + 1
  ordered : fromBlock ≤ toBlock
  confirmed : c.confirmations ≤ head ∧ toBlock ≤ head - c.confirmations
  width : toBlock - fromBlock < batchSize

variable {c : Settings} {batchSize head fromBlock toBlock : UInt64}
  {cursor : Option (Fin (2 ^ 63))}

theorem validateForIndexer_eq_ok : c.validateForIndexer = .ok () ↔
    c.chainID ≠ 0 ∧ c.rpcURL ≠ [] ∧ addressRe c.factoryAddress = true ∧
      addressRe c.wkashAddress = true ∧ c.factoryDeployBlock ≠ 0 ∧ c.databaseURL ≠ [] ∧
      c.blockBatchSize ≠ 0 := by
  simp only [validateForIndexer, Checked.ite_eq_ok, reduceCtorEq, and_false, false_or,
    Bool.not_eq_false, ne_eq, and_true]

theorem toNat_pos {n : UInt64} (h : n ≠ 0) : 0 < n.toNat := by
  rw [Nat.pos_iff_ne_zero]
  exact fun hzero => h (UInt64.toNat_inj.mp hzero)

theorem halved_ne_zero (h : batchSize ≠ 0) : halved batchSize ≠ 0 := by
  rw [halved]
  split
  · rename_i hone
    have hlt : 1 < batchSize.toNat := UInt64.lt_iff_toNat_lt.mp hone
    intro hzero
    have hhalf : batchSize.toNat / 2 = 0 := by
      have heq := congrArg UInt64.toNat hzero
      rwa [UInt64.toNat_div] at heq
    omega
  · exact h

theorem batchAfter_ne_zero (h : c.validateForIndexer = .ok ()) (refusals : Nat) :
    c.batchAfter refusals ≠ 0 := by
  induction refusals with
  | zero => exact (validateForIndexer_eq_ok.mp h).2.2.2.2.2.2
  | succ refusals ih =>
    rw [batchAfter, Function.iterate_succ_apply']
    exact halved_ne_zero ih

theorem toNat_startBlock (c : Settings) (cursor : Option (Fin (2 ^ 63))) :
    (c.startBlock cursor).toNat = cursor.elim c.factoryDeployBlock.toNat fun n => n.val + 1 := by
  rcases cursor with _ | n
  · rfl
  · have hn : n.val < UInt64.size := Nat.lt_trans n.isLt (by decide)
    have hnext : n.val + 1 < 2 ^ 64 := by omega
    rw [startBlock, UInt64.toNat_add, UInt64.toNat_ofNat_of_lt' hn]
    exact Nat.mod_eq_of_lt hnext

theorem toNat_safeBlock (c : Settings) (head : UInt64) (cfg : Config) :
    (c.safeBlock head).toNat = Indexer.safeBlock (c.config cfg) head.toNat := by
  rw [safeBlock, Indexer.safeBlock, show (c.config cfg).confirmations = c.confirmations.toNat from rfl]
  by_cases h : head < c.confirmations
  · rw [if_pos h, if_pos (UInt64.lt_iff_toNat_lt.mp h)]
    rfl
  · have hle : c.confirmations ≤ head := UInt64.not_lt.mp h
    rw [if_neg h, if_neg (Nat.not_lt_of_le (UInt64.le_iff_toNat_le.mp hle)),
      UInt64.toNat_sub_of_le _ _ hle]

theorem toNat_end (fromBlock batchSize : UInt64) : (fromBlock + batchSize - 1).toNat =
    (fromBlock.toNat + batchSize.toNat + (2 ^ 64 - 1)) % 2 ^ 64 := by
  rw [UInt64.toNat_sub, UInt64.toNat_add, UInt64.toNat_one]
  omega

theorem tickRange_eq_some : c.tickRange batchSize head cursor = some (fromBlock, toBlock) ↔
    c.startBlock cursor ≤ c.safeBlock head ∧ fromBlock = c.startBlock cursor ∧
      toBlock.toNat = Indexer.rangeEnd (c.startBlock cursor).toNat batchSize.toNat
        (c.safeBlock head).toNat := by
  unfold tickRange
  have hend := toNat_end (c.startBlock cursor) batchSize
  by_cases h : c.safeBlock head < c.startBlock cursor
  · simp only [h, if_true, reduceCtorEq, false_iff]
    exact fun hand => absurd hand.1 (UInt64.not_le.mpr h)
  · have htoNat : (if c.safeBlock head < c.startBlock cursor + batchSize - 1 then c.safeBlock head
        else c.startBlock cursor + batchSize - 1).toNat =
        Indexer.rangeEnd (c.startBlock cursor).toNat batchSize.toNat (c.safeBlock head).toNat := by
      rw [Indexer.rangeEnd, ← hend]
      simp only [UInt64.lt_iff_toNat_lt]
      split <;> rfl
    simp only [h, if_false, Option.some.injEq, Prod.mk.injEq]
    rw [← htoNat, UInt64.toNat_inj]
    constructor
    · rintro ⟨rfl, rfl⟩
      exact ⟨UInt64.not_lt.mp h, rfl, rfl⟩
    · rintro ⟨-, rfl, rfl⟩
      exact ⟨rfl, rfl⟩

theorem exact_of_fits (h : c.validateForIndexer = .ok ()) (hbatch : batchSize ≠ 0)
    (hfits : (c.startBlock cursor).toNat + batchSize.toNat ≤ 2 ^ 64)
    (hrange : c.tickRange batchSize head cursor = some (fromBlock, toBlock)) :
    Exact c batchSize head cursor fromBlock toBlock := by
  obtain ⟨hsafe, rfl, hto⟩ := tickRange_eq_some.mp hrange
  have hstart := toNat_startBlock c cursor
  have hsafe' := UInt64.le_iff_toNat_le.mp hsafe
  have hbatch' := toNat_pos hbatch
  obtain ⟨hle, hend⟩ := Indexer.rangeEnd_bounds hbatch' hfits hsafe'
  have hwidth := @Indexer.rangeEnd_width _ _ (c.safeBlock head).toNat hbatch' hfits
  rw [← hto] at hle hend hwidth
  have hordered : c.startBlock cursor ≤ toBlock := UInt64.le_iff_toNat_le.mpr hle
  refine ⟨hstart, hordered, ?_, ?_⟩
  · have hpos : 0 < (c.startBlock cursor).toNat := by
      rw [hstart]
      rcases cursor with _ | n
      · exact toNat_pos (validateForIndexer_eq_ok.mp h).2.2.2.2.1
      · exact Nat.succ_pos n
    have hconf : c.confirmations ≤ head := by
      by_contra hlt
      rw [safeBlock, if_pos (UInt64.not_le.mp hlt)] at hsafe'
      exact absurd hsafe' (Nat.not_le_of_lt hpos)
    rw [safeBlock, if_neg (UInt64.not_lt.mpr hconf)] at hend
    exact ⟨hconf, UInt64.le_iff_toNat_le.mpr hend⟩
  · rw [UInt64.lt_iff_toNat_lt, UInt64.toNat_sub_of_le _ _ hordered]
    omega

/-- A range whose end wraps ends before it starts. -/
theorem not_ordered_of_wraps (hsafe : c.startBlock cursor ≤ c.safeBlock head)
    (hwraps : 2 ^ 64 < (c.startBlock cursor).toNat + batchSize.toNat) :
    ∃ toBlock, c.tickRange batchSize head cursor = some (c.startBlock cursor, toBlock) ∧
      toBlock < c.startBlock cursor := by
  have hend := toNat_end (c.startBlock cursor) batchSize
  have hbatch := batchSize.toNat_lt
  have hback : (c.startBlock cursor + batchSize - 1).toNat < (c.startBlock cursor).toNat := by
    rw [hend]
    omega
  have hsafe' := UInt64.le_iff_toNat_le.mp hsafe
  refine ⟨c.startBlock cursor + batchSize - 1, tickRange_eq_some.mpr ⟨hsafe, rfl, ?_⟩,
    UInt64.lt_iff_toNat_lt.mpr hback⟩
  rw [Indexer.rangeEnd, ← hend, if_neg (by omega)]

end Settings

namespace Indexer

variable {cfg : Config} {o : Outside} {ix : Indexer} {db : Database} {before : Option IndexerState}
  {low high bn fromBlock toBlock : Nat}

/-- The cursor is the one before, or stands in a range. -/
def CursorWithin (cfg : Config) (before : Option IndexerState) (low high : Nat) (db : Database) : Prop :=
  db.indexerState[cfg.chainID]? = before ∨
    ∃ st, db.indexerState[cfg.chainID]? = some st ∧ low ≤ st.lastProcessedBlock ∧
      st.lastProcessedBlock ≤ high

theorem CursorWithin.mono {high' : Nat} (h : CursorWithin cfg before low high db) (hle : high ≤ high') :
    CursorWithin cfg before low high' db := by
  rcases h with hsame | ⟨st, hst, hlow, hhigh⟩
  · exact .inl hsame
  · exact .inr ⟨st, hst, hlow, Nat.le_trans hhigh hle⟩

theorem processBlock_within {logs : List Log} (hlow : low ≤ bn) (hhigh : bn ≤ high) :
    Triple (On fun _ db => CursorWithin cfg before low high db) (processBlock cfg o bn logs)
      (fun _ => On fun _ db => CursorWithin cfg before low high db)
      (On fun _ db => CursorWithin cfg before low high db) := by
  intro s hs
  refine Triple.conseq (processBlock_triple s.ix s.db) (fun _ hs => hs) ?_ ?_ s ⟨rfl, rfl⟩
  · rintro - t ⟨k, header, tokens, -, -, hrun⟩
    exact .inr ⟨_, indexBlock_cursor hrun, hlow, hhigh⟩
  · rintro t (⟨-, hdb⟩ | ⟨k, header, tokens, -, -, ⟨hdb, -⟩ | hrun⟩)
    · rw [On, hdb]
      exact hs
    · rw [On, hdb]
      exact hs
    · exact .inr ⟨_, indexBlock_cursor hrun, hlow, hhigh⟩

theorem moveCursor_within {header : Block} (hlow : low ≤ bn) (hhigh : bn ≤ high) :
    Triple (On fun _ db => CursorWithin cfg before low high db) (inBlockTx o (setCursor cfg o bn header))
      (fun _ => On fun _ db => CursorWithin cfg before low high db)
      (On fun _ db => CursorWithin cfg before low high db) := by
  refine inBlockTx_triple (fun db => ?_) (fun _ _ h => h) fun _ _ h => h
  refine Triple.conseq (exec_triple (P := fun ix db' => CursorWithin cfg before low high db' ∧ db' = db)
    (Q := fun _ db' => CursorWithin cfg before low high db' ∧ CursorWithin cfg before low high db) ?_)
    (fun _ hs => hs) (fun _ _ hs => hs) fun s hs => hs.2 ▸ hs.1
  rintro ix db' ⟨hwithin, rfl⟩ -
  exact ⟨.inr ⟨_, cursorAt_effect cfg bn header db', hlow, hhigh⟩, hwithin⟩

variable (hnumber : ∀ k n, ∀ l ∈ (o.chain k).logsAt n, l.blockNumber = n)

section Logs

include hnumber

theorem fetchLogs_within {P : Indexer → Database → Prop} :
    Triple (On P) (fetchLogs cfg o fromBlock toBlock)
      (fun logs => On fun ix db => P ix db ∧
        ∀ l ∈ logs, fromBlock ≤ l.blockNumber ∧ l.blockNumber ≤ toBlock) (On P) := by
  have hfilter : ∀ {P : Indexer → Database → Prop} addresses topics,
      Triple (On P) (filterLogs o fromBlock toBlock addresses topics)
        (fun logs => On fun ix db => P ix db ∧
          ∀ l ∈ logs, fromBlock ≤ l.blockNumber ∧ l.blockNumber ≤ toBlock) (On P) := by
    intro P addresses topics
    refine Triple.conseq filterLogs_triple (fun _ hs => hs) ?_ fun _ hs => hs
    rintro logs s ⟨hP, k, rfl⟩
    refine ⟨hP, fun l hl => ?_⟩
    obtain ⟨⟨n, hfrom, hto, hmem⟩, -⟩ := Chain.mem_filterLogs.mp hl
    rw [hnumber k n l hmem]
    exact ⟨hfrom, hto⟩
  refine Triple.bind (hfilter _ _) fun factoryLogs => ?_
  refine Triple.bind (Triple.get (R := fun _ => On fun ix db => P ix db ∧
    ∀ l ∈ factoryLogs, fromBlock ≤ l.blockNumber ∧ l.blockNumber ≤ toBlock) fun _ hs => hs) fun s => ?_
  by_cases hnil : s.ix.knownPairs.toList.map Prod.fst ++ announced factoryLogs = []
  · simp only [hnil, if_true]
    exact Triple.pure fun _ hs => hs
  · simp only [hnil, if_false]
    refine Triple.bind (Triple.conseq (hfilter _ _) (fun _ hs => hs) (fun _ _ hs => hs)
      fun _ hs => hs.1) fun pairLogs => Triple.pure ?_
    rintro t ⟨⟨hP, hfactory⟩, hpairs⟩
    refine ⟨hP, fun l hl => ?_⟩
    exact (List.mem_append.mp hl).elim (hfactory l) (hpairs l)

theorem processRange_within (hrange : fromBlock ≤ toBlock) :
    Triple (On fun _ db => CursorWithin cfg before fromBlock toBlock db)
      (processRange cfg o fromBlock toBlock)
      (fun _ => On fun _ db => CursorWithin cfg before fromBlock toBlock db)
      (On fun _ db => CursorWithin cfg before fromBlock toBlock db) := by
  refine Triple.bind (Triple.attempt (fetchLogs_within hnumber)) fun fetched => ?_
  rcases fetched with e | logs
  · refine Triple.conseq (refused_triple (P := fun _ db => CursorWithin cfg before fromBlock toBlock db)
      fun _ _ hs _ => hs) (fun s hs => hs.2 e rfl) (fun _ _ hs => hs) fun _ hs => hs
  · rintro s ⟨hok, -⟩
    obtain ⟨hwithin, hlogs⟩ := hok logs rfl
    have hblocks := Triple.forEach (E := On fun _ db => CursorWithin cfg before fromBlock toBlock db)
      (f := fun bn => processBlock cfg o bn ((sortLogs logs).filter fun l => l.blockNumber = bn))
      (fun rest s => On (fun _ db => CursorWithin cfg before fromBlock toBlock db) s ∧
        ∀ bn ∈ rest, fromBlock ≤ bn ∧ bn ≤ toBlock) (fun bn rest => ?_) (blockNums (sortLogs logs))
    · refine Triple.bind (Triple.conseq hblocks (fun _ hs => hs) (fun _ _ hs => hs.1) fun _ hs => hs)
        (fun _ => ?_) s ⟨hwithin, fun bn hbn => ?_⟩
      · refine Triple.bind (Triple.conseq headerByNumber_triple (fun _ hs => hs) (fun _ _ hs => hs.1)
          fun _ hs => hs) fun head => ?_
        exact moveCursor_within hrange (Nat.le_refl _)
      · obtain ⟨l, hl, rfl⟩ := mem_blockNums.mp hbn
        exact hlogs l (mem_sortLogs.mp hl)
    · rintro s ⟨hs, hrest⟩
      obtain ⟨hlow, hhigh⟩ := hrest bn List.mem_cons_self
      have hstep : Triple (On fun _ db => CursorWithin cfg before fromBlock toBlock db)
          (processBlock cfg o bn ((sortLogs logs).filter fun l => l.blockNumber = bn)) _ _ :=
        processBlock_within hlow hhigh
      obtain ⟨hok, herr⟩ := hstep s hs
      exact ⟨fun a t ht => ⟨hok a t ht, fun n hn => hrest n (List.mem_cons_of_mem bn hn)⟩, herr⟩

theorem advance_within {safe : Nat} (hbatch : 0 < ix.batchSize) (hfits : nextBlock cfg db ≤ safe →
      Fits cfg ix db) :
    Triple (On (At ix db)) (advance cfg o safe)
      (fun _ => On fun _ db' => CursorWithin cfg db.indexerState[cfg.chainID]? (nextBlock cfg db) safe db')
      (On fun _ db' => CursorWithin cfg db.indexerState[cfg.chainID]? (nextBlock cfg db) safe db') := by
  have hsame : ∀ s, On (At ix db) s →
      CursorWithin cfg db.indexerState[cfg.chainID]? (nextBlock cfg db) safe s.db := by
    rintro s ⟨-, hdb⟩
    rw [hdb]
    exact .inl rfl
  refine Triple.bind (Triple.conseq startBlock_triple (fun _ hs => hs) (fun _ _ hs => hs)
    hsame) fun first => ?_
  rintro s ⟨⟨rfl, rfl⟩, rfl⟩
  by_cases hlt : safe < nextBlock cfg s.db
  · rw [if_pos hlt]
    exact Triple.pure (P := fun t => t = s) (fun t ht => ht ▸ .inl rfl) s rfl
  · rw [if_neg hlt]
    have hle := Nat.le_of_not_lt hlt
    obtain ⟨hrange, hend⟩ := rangeEnd_bounds hbatch (hfits hle) hle
    have hwithin : Triple (On fun _ db => CursorWithin cfg s.db.indexerState[cfg.chainID]? (nextBlock cfg s.db)
        (rangeEnd (nextBlock cfg s.db) s.ix.batchSize safe) db) (processRange cfg o (nextBlock cfg s.db)
        (rangeEnd (nextBlock cfg s.db) s.ix.batchSize safe)) _ _ := processRange_within hnumber hrange
    exact Triple.conseq hwithin (fun _ hs => hs) (fun _ _ ht => ht.mono hend) (fun _ ht => ht.mono hend) s
      (.inl rfl)

end Logs

theorem checkReorg_quiet (hquiet : ∀ st, db.indexerState[cfg.chainID]? = some st →
      ∀ k b, (o.chain k).headerAt st.lastProcessedBlock = some b →
        b.hash = st.lastProcessedBlockHash) :
    Triple (On (At ix db)) (checkReorg cfg o) (fun _ => On (At ix db)) (On (At ix db)) := by
  refine Triple.bind (Triple.conseq query_triple (fun _ hs => hs) (fun _ _ hs => hs)
    fun _ hs => hs) fun st => ?_
  rcases st with _ | st
  · exact Triple.pure fun _ hs => hs.1
  · rintro s ⟨⟨hix, hdb⟩, hst⟩
    rw [hdb] at hst
    refine Triple.bind (headerByNumber_triple (P := At ix db)) (fun current => ?_) s ⟨hix, hdb⟩
    rintro t ⟨hat, k, hk⟩
    rw [if_pos (hquiet st hst.symm k current hk)]
    have hpure : Triple (On (At ix db)) (pure () : Ix Unit) (fun _ => On (At ix db)) (On (At ix db)) :=
      Triple.pure fun _ ht => ht
    exact hpure t hat

/-- A Tick that meets no other block at the cursor leaves it or moves it on, and not past
the safe block, whichever of its calls fail. -/
theorem tick_within (hbatch : 0 < ix.batchSize)
    (hfits : nextBlock cfg db ≤ safeBlock cfg (o.chain 0).headNumber → Fits cfg ix db)
    (hnumber : ∀ k n, ∀ l ∈ (o.chain k).logsAt n, l.blockNumber = n)
    (hquiet : ∀ st, db.indexerState[cfg.chainID]? = some st →
      ∀ k b, (o.chain k).headerAt st.lastProcessedBlock = some b →
        b.hash = st.lastProcessedBlockHash) :
    CursorWithin cfg db.indexerState[cfg.chainID]? (nextBlock cfg db)
      (safeBlock cfg (o.chain 0).headNumber) (tick cfg o ⟨ix, db, 0⟩).2.db := by
  have hsame : ∀ s, On (At ix db) s → CursorWithin cfg db.indexerState[cfg.chainID]? (nextBlock cfg db)
      (safeBlock cfg (o.chain 0).headNumber) s.db := by
    rintro s ⟨-, hdb⟩
    rw [hdb]
    exact .inl rfl
  have htick : Triple (fun s => s = ⟨ix, db, 0⟩) (tick cfg o)
      (fun _ => On fun _ db' => CursorWithin cfg db.indexerState[cfg.chainID]? (nextBlock cfg db)
        (safeBlock cfg (o.chain 0).headNumber) db')
      (On fun _ db' => CursorWithin cfg db.indexerState[cfg.chainID]? (nextBlock cfg db)
        (safeBlock cfg (o.chain 0).headNumber) db') := by
    refine Triple.bind (Triple.conseq (blockNumber_first ix db) (fun _ hs => hs) (fun _ _ hs => hs)
      hsame) fun head => ?_
    rintro s ⟨hat, rfl⟩
    exact Triple.bind (Triple.conseq (checkReorg_quiet hquiet) (fun _ hs => hs) (fun _ _ hs => hs) hsame)
      (fun _ => advance_within hnumber hbatch hfits) s hat
  exact htick.state rfl

end Indexer

namespace Settings

open Indexer

variable {c : Settings} {cfg : Config} {db : Database} {cursor : Option (Fin (2 ^ 63))}

theorem nextBlock_eq (h : (db.indexerState[c.chainID.toNat]?).map IndexerState.lastProcessedBlock =
    cursor.map Fin.val) : nextBlock (c.config cfg) db = (c.startBlock cursor).toNat := by
  rw [toNat_startBlock, nextBlock, show (c.config cfg).chainID = c.chainID.toNat from rfl]
  rcases cursor with _ | n
  · rw [Option.map_eq_none_iff.mp h]
    rfl
  · obtain ⟨st, hst, hn⟩ := Option.map_eq_some_iff.mp h
    rw [hst]
    exact congrArg (· + 1) hn

/-- What the settings are meant to grant at a batch, a head and a cursor: an exact range, and
a cursor that a Tick without a reorg does not move back or past the safe block. -/
structure Bounded (c : Settings) (refusals : Nat) (head : UInt64) (cursor : Option (Fin (2 ^ 63))) :
    Prop where
  range : ∀ fromBlock toBlock,
    c.tickRange (c.batchAfter refusals) head cursor = some (fromBlock, toBlock) →
      Exact c (c.batchAfter refusals) head cursor fromBlock toBlock
  cursor : ∀ (cfg : Config) (o : Outside) (ix : Indexer) (db : Database),
    ix.batchSize = (c.batchAfter refusals).toNat →
    (db.indexerState[c.chainID.toNat]?).map IndexerState.lastProcessedBlock = cursor.map Fin.val →
    (o.chain 0).headNumber = head.toNat →
    (∀ k n, ∀ l ∈ (o.chain k).logsAt n, l.blockNumber = n) →
    (∀ st, db.indexerState[c.chainID.toNat]? = some st → ∀ k b,
      (o.chain k).headerAt st.lastProcessedBlock = some b → b.hash = st.lastProcessedBlockHash) →
    CursorWithin (c.config cfg) db.indexerState[c.chainID.toNat]? (c.startBlock cursor).toNat
      (c.safeBlock head).toNat (tick (c.config cfg) o ⟨ix, db, 0⟩).2.db

theorem tick_range_iff (h : c.validateForIndexer = .ok ()) (refusals : Nat) (head : UInt64)
    (cursor : Option (Fin (2 ^ 63))) : Bounded c refusals head cursor ↔
      (c.startBlock cursor ≤ c.safeBlock head →
        (c.startBlock cursor).toNat + (c.batchAfter refusals).toNat ≤ 2 ^ 64) := by
  have hbatch := batchAfter_ne_zero h refusals
  constructor
  · intro hbounded hsafe
    by_contra hwraps
    obtain ⟨toBlock, hrange, hback⟩ := not_ordered_of_wraps hsafe (Nat.lt_of_not_le hwraps)
    exact absurd (hbounded.range _ _ hrange).ordered (UInt64.not_le.mpr hback)
  · intro hfits
    refine ⟨fun fromBlock toBlock hrange => ?_, ?_⟩
    · exact exact_of_fits h hbatch (hfits (tickRange_eq_some.mp hrange).1) hrange
    · intro cfg o ix db hsize hcursor hhead hnumber hquiet
      have hnext := @nextBlock_eq c cfg db cursor hcursor
      have hsafe := toNat_safeBlock c head cfg
      rw [← hhead] at hsafe
      rw [hsafe, ← hnext]
      refine tick_within ?_ (fun hle => ?_) hnumber hquiet
      · rw [hsize]
        exact toNat_pos hbatch
      · rw [hnext, ← hsafe, ← UInt64.le_iff_toNat_le] at hle
        rw [Fits, hnext, hsize]
        exact hfits hle

def forFork (blockBatchSize : UInt64) : Settings :=
  { chainID := 1, rpcURL := ['h'], factoryAddress := '0' :: 'x' :: List.replicate 40 '7',
    factoryDeployBlock := 1, wkashAddress := '0' :: 'x' :: List.replicate 40 '1',
    databaseURL := ['p'], confirmations := 0, blockBatchSize := blockBatchSize }

theorem forFork_bounded : Bounded (forFork 10) 0 2 (some 1) :=
  (tick_range_iff (by decide) 0 2 (some 1)).mpr (by decide)

def atCreation : Database :=
  (Database.setIndexerState { chainID := 1, lastProcessedBlock := 1,
                              lastProcessedBlockHash := 101 }).effect Database.empty

/-- The largest batch asks for blocks 2 to 0, and moves the cursor back to block 0. -/
theorem largest_batch_moves_back :
    (forFork 18446744073709551615).validateForIndexer = .ok () ∧
      (forFork 18446744073709551615).tickRange 18446744073709551615 2 (some 1) = some (2, 0) ∧
      ¬Bounded (forFork 18446744073709551615) 0 2 (some 1) ∧
      (tick ((forFork 18446744073709551615).config Fork.cfg) (Outside.calm Fork.quiet)
        ⟨Indexer.new ((forFork 18446744073709551615).config Fork.cfg), atCreation, 0⟩).2.db.indexerState[1]? =
        some { chainID := 1, lastProcessedBlock := 0, lastProcessedBlockHash := 100 } := by
  have hrange : (forFork 18446744073709551615).tickRange 18446744073709551615 2 (some 1) = some (2, 0) := by decide
  refine ⟨by decide, hrange, fun h => ?_, by decide +kernel⟩
  exact absurd (h.range 2 0 hrange).ordered (by decide)

end Settings

end ArkSwap.GoInternal
