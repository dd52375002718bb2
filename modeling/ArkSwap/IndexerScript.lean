import ArkSwap.IndexerSchema
import ArkSwap.Lib.Guarded
import ArkSwap.Lib.Script

/-! The calls a Tick makes, written down from the chain, the state it starts in and
what tokens answer: which calls fail or are refused, and what the logs written so far
and those of the open transaction tell of the pairs when one does. -/

namespace ArkSwap.GoInternal

open Prog Guarded

/-- The reserves of a pair and the block of its last Sync. -/
def Pair.entry (p : Pair) : (Nat × Nat) × Option Nat := ((p.reserve0, p.reserve1), p.lastSyncBlock)

theorem Statement.effect_of_run {statement : Statement} {db db' : Database}
    (h : statement.run db = some db') : db' = statement.effect db := by
  rw [Statement.run] at h
  split at h
  · exact (Option.some.inj h).symm
  · cases h

namespace Indexer

/-- What a log tells of a pair: that it is created, or its reserves. -/
def told (l : Log) : Option (Address × Write (Nat × Nat)) :=
  match l.topic with
  | some .pairCreated => (decodePairCreated l).map fun ev => (ev.pair, .start)
  | some .sync =>
      (decodeSync l).map fun ev => (l.address, .set (ev.reserve0, ev.reserve1) l.blockNumber)
  | _ => none

def toldOf (a : Address) (logs : List Log) : List (Write (Nat × Nat)) :=
  (logs.filterMap told).filterMap fun e => if e.1 = a then some e.2 else none

/-- Of every pair told of, the last Sync is not below the stored one, or it is created and
had none. Of a pair that the open transaction tells of, the row said the same before. -/
def tellSame (known : Table Address Pair) (done pending : List Log) : Bool :=
  ((done ++ pending).filterMap told).all fun e =>
    restated (0, 0) (known[e.1]?.map Pair.entry) (toldOf e.1 done) (toldOf e.1 pending)

section Sites

variable (cfg : Config) (o : Outside)

def site (refused : Bool) (spares : Nat → Bool) : CallSite :=
  { fails := fun k => (o.error k).isSome || refused, spares := spares }

/-- The answer to a call is passed over when it fails. -/
def passed : CallSite := { fails := fun _ => false, spares := fun _ => true }

def harmless (refused : Bool) : CallSite := site o refused fun _ => true

/-- What a statement refers to, as it is in memory. -/
def references (ix : Indexer) : Database :=
  { Database.empty with pairs := ix.knownPairs, tokens := ix.knownTokens }

def execSite (ix : Indexer) (spares : Nat → Bool) (statement : Statement) : CallSite :=
  site o (!statement.allowed (references ix)) spares

/-- The record of a token that is asked from a call on. -/
def recordAt (n : Nat) (a : Address) : Token :=
  let ask := fun k method => if (o.error k).isSome then none else o.answer k a method
  applyTokenFlags cfg (tokenMetadata o.abi a (ask n .name) (ask (n + 1) .symbol) (ask (n + 2) .decimals))

def recordsAt : Nat → List Address → List Token → List Token
  | _, [], tokens => tokens
  | n, a :: addresses, tokens =>
      if tokens.any fun t => t.address == some a then recordsAt n addresses tokens
      else recordsAt (n + 3) addresses (tokens ++ [recordAt cfg o n a])

/-- The statements of logs, each checked against the memory that the ones before it leave. -/
def logSites (header : Block) (spares : List Log → Bool) :
    Indexer → List Log → List Log → List CallSite
  | _, _, [] => []
  | ix, pending, l :: rest =>
      match applyLog cfg header ix l with
      | none => logSites header spares ix (pending ++ [l]) rest
      | some (statement, ix') =>
          execSite o ix (fun _ => spares pending) statement ::
            logSites header spares ix' (pending ++ [l]) rest

variable (known : Table Address Pair) (done : List Log)

def writeSites (header : Block) (number : Nat) (tokens : List Token) (logs : List Log) (ix : Indexer) :
    List CallSite :=
  (openingStatements header tokens).map (execSite o ix fun _ => tellSame known done []) ++
    (logSites cfg o header (tellSame known done) ix [] logs ++
      (snapshotStatements cfg header (logs.foldl (memoryLog cfg header) ix) logs ++
        [cursorAt cfg number header]).map
          (execSite o (logs.foldl (memoryLog cfg header) ix) fun _ => tellSame known done logs))

def transactionSites (header : Block) (number : Nat) (tokens : List Token) (logs : List Log)
    (ix : Indexer) : List CallSite :=
  site o false (fun _ => tellSame known done []) ::
    (writeSites cfg o known done header number tokens logs ix ++
      [site o false fun k =>
        if o.lost k then tellSame known (done ++ logs) [] else tellSame known done logs])

/-- The blocks of a range, from the logs and the memory that the ones before leave: a block
that the node does not have is refused. -/
def blocksSites (c : Chain) (logs : List Log) : List Log → Indexer → Nat → List Nat → List CallSite
  | _, _, _, [] => []
  | done, ix, n, bn :: rest =>
      match c.headerAt bn with
      | none => [site o true fun _ => tellSame known done []]
      | some header =>
          let own := logs.filter fun l => l.blockNumber = bn
          let tokens := recordsAt cfg o (n + 1) (createdTokens own) []
          let sites := site o false (fun _ => tellSame known done []) ::
            (List.replicate (3 * tokens.length) passed ++
              transactionSites cfg o known done header bn tokens own (ix.loadTokens tokens))
          sites ++ blocksSites c logs (done ++ own)
            (own.foldl (memoryLog cfg header) (ix.loadTokens tokens)) (n + sites.length) rest

def blocksLogs (logs : List Log) (blocks : List Nat) : List Log :=
  blocks.flatMap fun bn => logs.filter fun l => l.blockNumber = bn

def cursorSite (number : Nat) (spares : Nat → Bool) : CallSite :=
  site o (!(Database.bigint cfg.chainID && Database.bigint number)) spares

def closingSites (c : Chain) (toBlock : Nat) : List CallSite :=
  let spares := fun _ => tellSame known done []
  [site o (c.headerAt toBlock).isNone spares, site o false spares, cursorSite cfg o toBlock spares,
    site o false spares]

end Sites

section Script

variable (cfg : Config) (o : Outside) (c : Chain) (ix : Indexer) (db : Database)

def onChain (number : Nat) (hash : Word) : Bool := (c.headerAt number).any fun b => b.hash = hash

/-- The height that a walk back from another ends at. -/
def ancestorOf : Nat → Nat
  | 0 => 0
  | n + 1 =>
      if n + 1 ≤ cfg.factoryDeployBlock then n + 1
      else
        match db.blockHash n with
        | none => ancestorOf n
        | some stored => if onChain c n stored then n else ancestorOf n

def walkSites : Nat → List CallSite
  | 0 => []
  | n + 1 =>
      if n + 1 ≤ cfg.factoryDeployBlock then []
      else harmless o false ::
        match db.blockHash n with
        | none => walkSites n
        | some stored => harmless o (c.headerAt n).isNone ::
            if onChain c n stored then [] else walkSites n

/-- The rollback and the reading back of the pairs. An answer to the commit is lost without
harm if no pair goes, and the reading fails without harm if none is left. -/
def rollbackSites (m : Nat) : List CallSite :=
  harmless o false ::
    (((Database.rollbackFrom (m + 1)).map fun statement => harmless o (!statement.allowed db)) ++
      [harmless o (c.headerAt m).isNone, cursorSite cfg o m fun _ => true]) ++
    [site o false fun k => !o.lost k || db.pairs.rows.all fun p => p.createdBlock ≤ m,
      site o false fun _ => db.pairs.rows.all fun p => m < p.createdBlock]

def checkSites : List CallSite :=
  harmless o false ::
    match db.indexerState[cfg.chainID]? with
    | none => []
    | some st => harmless o (c.headerAt st.lastProcessedBlock).isNone ::
        if onChain c st.lastProcessedBlock st.lastProcessedBlockHash then []
        else walkSites cfg o c db st.lastProcessedBlock ++
          rollbackSites cfg o c db (ancestorOf cfg c db st.lastProcessedBlock)

/-- The memory after the check for a reorganisation, and the first block to index. -/
def checked : Indexer × Nat :=
  match db.indexerState[cfg.chainID]? with
  | none => (ix, cfg.factoryDeployBlock)
  | some st =>
      if onChain c st.lastProcessedBlock st.lastProcessedBlockHash then (ix, st.lastProcessedBlock + 1)
      else
        let m := ancestorOf cfg c db st.lastProcessedBlock
        ({ ix with knownPairs := db.pairs.deleteWhere fun _ p => m + 1 ≤ p.createdBlock }, m + 1)

def fetchSites (fromBlock toBlock : Nat) : List CallSite :=
  if ix.knownPairs.toList.map Prod.fst ++
      announced (c.filterLogs fromBlock toBlock [cfg.factoryAddress] [.pairCreated]) = [] then
    [harmless o false]
  else [harmless o false, harmless o false]

def rangeLogs (fromBlock toBlock : Nat) : List Log :=
  sortLogs (fetched cfg c (ix.knownPairs.toList.map Prod.fst) fromBlock toBlock)

/-- The first call of a range that fails does no harm; if none does, all its logs tell of
the pairs what the rows then say. -/
def RangeSpared (fromBlock toBlock n : Nat) : Prop :=
  let logs := rangeLogs cfg c ix fromBlock toBlock
  let fetching := fetchSites cfg o c ix fromBlock toBlock
  let writing := blocksSites cfg o ix.knownPairs c logs [] ix (n + fetching.length) (blockNums logs)
  let written := blocksLogs logs (blockNums logs)
  Spared (tellSame ix.knownPairs written [] = true)
    (fetching ++ (writing ++ closingSites cfg o ix.knownPairs written c toBlock)) n

/-- The same for a whole Tick, from the state before it. -/
def TickSpared : Prop :=
  let script := [harmless o false] ++ (checkSites cfg o c db ++ [harmless o false])
  let start := checked cfg c ix db
  let safe := safeBlock cfg c.headNumber
  Spared (start.2 ≤ safe →
    RangeSpared cfg o c start.1 start.2 (rangeEnd start.2 start.1.batchSize safe) script.length) script 0

instance RangeSpared.decidable {fromBlock toBlock n : Nat} :
    Decidable (RangeSpared cfg o c ix fromBlock toBlock n) :=
  inferInstanceAs (Decidable (Spared _ _ _))

instance TickSpared.decidable : Decidable (TickSpared cfg o c ix db) :=
  inferInstanceAs (Decidable (Spared _ _ _))

end Script

section Calls

variable {cfg : Config} {o : Outside} {c : Chain} {refused : Bool} {spares : Nat → Bool} {s : Sys}
variable {E Q : Indexer → Database → Prop} {script : List CallSite}

/-- A call, from what is done with its answer without any other call. -/
theorem obeys_request {α : Type} {x : Nat → Ix α} {R : α → Sys → Prop}
    (hspares : spares s.calls = true → E s.ix s.db)
    (hrefused : refused = true →
      ∃ e, x s.calls { s with calls := s.calls + 1 } = (.error e, { s with calls := s.calls + 1 }))
    (hanswered : refused = false → ∃ a t, x s.calls { s with calls := s.calls + 1 } = (.ok a, t) ∧
      t.calls = s.calls + 1 ∧ R a t) :
    Obeys Sys.calls [site o refused spares] (request o >>= x) s R (On E) := by
  rcases he : o.error s.calls with _ | e
  · have hrun : request o s = (.ok s.calls, { s with calls := s.calls + 1 }) := by
      simp only [request, nextCall, Prog.get, Prog.modify, bind, pure, he]
    have hfails : (site o refused spares).fails s.calls = refused := by
      simp only [site, he, Option.isSome_none, Bool.false_or]
    refine Obeys.call (fun hfail => ?_) fun hok => ?_
    · obtain ⟨e, hx⟩ := hrefused (hfails.symm.trans hfail)
      exact ⟨e, _, (bind_of_ok x hrun).trans hx, hspares⟩
    · obtain ⟨a, t, hx, hcalls, hR⟩ := hanswered (hfails.symm.trans hok)
      exact ⟨a, t, (bind_of_ok x hrun).trans hx, hcalls, hR⟩
  · have hrun : request o s = (.error e, { s with calls := s.calls + 1 }) := by
      simp only [request, nextCall, Prog.get, Prog.modify, Prog.fail, bind, pure, he]
    refine Obeys.call (fun _ => ⟨e, _, bind_of_error x hrun, hspares⟩) fun hok => ?_
    simp only [site, he, Option.isSome_some, Bool.true_or] at hok
    cases hok

theorem obeys_header {number : Nat} (hchain : o.chain s.calls = c)
    (hrefused : (c.headerAt number).isNone = refused) (hspares : spares s.calls = true → E s.ix s.db) :
    Obeys Sys.calls [site o refused spares] (headerByNumber o number) s
      (fun b t => c.headerAt number = some b ∧ On (At s.ix s.db) t) (On E) := by
  refine obeys_request hspares (fun hnone => ⟨"not found", ?_⟩) fun hsome => ?_
  · rw [hchain, Option.isNone_iff_eq_none.mp (hrefused.trans hnone)]
    rfl
  · rcases hb : c.headerAt number with _ | b
    · rw [hb, hsome] at hrefused
      cases hrefused
    · refine ⟨b, { s with calls := s.calls + 1 }, ?_, rfl, rfl, rfl, rfl⟩
      rw [hchain, hb]
      rfl

theorem obeys_query {α : Type} {read : Database → α} (hspares : spares s.calls = true → E s.ix s.db) :
    Obeys Sys.calls [site o false spares] (query o read) s
      (fun a t => a = read s.db ∧ On (At s.ix s.db) t) (On E) :=
  obeys_request hspares (fun h => (by cases h)) fun _ =>
    ⟨read s.db, { s with calls := s.calls + 1 }, rfl, rfl, rfl, rfl, rfl⟩

theorem obeys_blockNumber (hchain : o.chain s.calls = c)
    (hspares : spares s.calls = true → E s.ix s.db) :
    Obeys Sys.calls [site o false spares] (blockNumber o) s
      (fun head t => head = c.headNumber ∧ On (At s.ix s.db) t) (On E) :=
  obeys_request hspares (fun h => (by cases h)) fun _ =>
    ⟨c.headNumber, { s with calls := s.calls + 1 }, by rw [hchain]; rfl, rfl, rfl, rfl, rfl⟩

theorem obeys_filterLogs {fromBlock toBlock : Nat} {addresses : List Address} {topics : List Topic}
    (hchain : o.chain s.calls = c) (hspares : spares s.calls = true → E s.ix s.db) :
    Obeys Sys.calls [site o false spares] (filterLogs o fromBlock toBlock addresses topics) s
      (fun logs t => logs = c.filterLogs fromBlock toBlock addresses topics ∧ On (At s.ix s.db) t)
      (On E) :=
  obeys_request hspares (fun h => (by cases h)) fun _ =>
    ⟨_, { s with calls := s.calls + 1 }, by rw [hchain]; rfl, rfl, rfl, rfl, rfl⟩

theorem obeys_exec {statement : Statement} {db : Database}
    (hallowed : statement.allowed s.db = statement.allowed db)
    (hspares : spares s.calls = true → E s.ix s.db) :
    Obeys Sys.calls [site o (!statement.allowed db) spares] (exec o statement) s
      (fun _ => On fun ix db => ix = s.ix ∧ statement.run s.db = some db) (On E) := by
  refine obeys_request hspares (fun hrefused => ⟨statement.reason, ?_⟩) fun hok => ?_
  · have hnot : ¬statement.allowed s.db = true := by
      rw [hallowed, Bool.not_eq_true, ← Bool.not_eq_true']
      exact hrefused
    simp only [Prog.get, bind, if_neg hnot]
    rfl
  · have hyes : statement.allowed s.db = true := by
      rw [hallowed, ← Bool.not_eq_false']
      exact hok
    refine ⟨(), { s with calls := s.calls + 1, db := statement.effect s.db }, ?_, rfl, rfl, if_pos hyes⟩
    simp only [Prog.get, bind, if_pos hyes]
    rfl

theorem obeys_execAll {α : Type} {f : α → Statement} {as : List α} {db : Database}
    {P : Database → Prop} {E : Indexer → Prop}
    (hallowed : ∀ a ∈ as, ∀ d, P d → (f a).allowed d = (f a).allowed db ∧ P ((f a).effect d))
    (hP : P s.db) (hspares : (∃ n, spares n = true) → E s.ix) :
    Obeys Sys.calls (as.map fun a => site o (!(f a).allowed db) spares)
      (Prog.forEach (fun a => exec o (f a)) as) s
      (fun _ => On fun ix d => ix = s.ix ∧ runAll (as.map f) s.db = some d) (On fun ix _ => E ix) := by
  induction as generalizing s with
  | nil => exact Obeys.pure ⟨rfl, rfl⟩
  | cons a as ih =>
    obtain ⟨hsame, hkeep⟩ := hallowed a List.mem_cons_self s.db hP
    refine Obeys.bind (obeys_exec hsame fun h => hspares ⟨_, h⟩) fun _ t ht _ => ?_
    obtain ⟨hix, hrun⟩ := ht
    have heffect : t.db = (f a).effect s.db := Statement.effect_of_run hrun
    refine (ih (fun b hb => hallowed b (List.mem_cons_of_mem a hb)) (by rw [heffect]; exact hkeep)
      (by rw [hix]; exact hspares)).conseq (fun _ r hr => ⟨hr.1.trans hix, ?_⟩) fun _ h => h
    rw [List.map_cons, runAll, List.foldlM_cons, hrun]
    exact hr.2

theorem obeys_commit {before : Database} (hspares : spares s.calls = true →
      if o.lost s.calls = true then E s.ix s.db else E s.ix before) :
    Obeys Sys.calls [site o false spares] (commit o before) s (fun _ => On (At s.ix s.db)) (On E) := by
  rcases he : o.error s.calls with _ | e
  · refine Obeys.call (fun hfail => ?_) fun _ => ?_
    · simp only [site, he, Option.isSome_none, Bool.or_false] at hfail
      cases hfail
    · refine ⟨(), { s with calls := s.calls + 1 }, ?_, rfl, rfl, rfl⟩
      simp only [commit, nextCall, Prog.get, Prog.modify, bind, pure, he]
  · have hfails : (site o false spares).fails s.calls ≠ false := by simp [site, he]
    by_cases hlost : o.lost s.calls = true
    · rw [if_pos hlost] at hspares
      refine Obeys.call (fun _ => ⟨e, { s with calls := s.calls + 1 }, ?_, hspares⟩)
        fun hok => (hfails hok).elim
      simp only [commit, nextCall, Prog.get, Prog.modify, Prog.fail, bind, pure, he, if_pos hlost]
    · rw [if_neg hlost] at hspares
      refine Obeys.call (fun _ => ⟨e, ⟨s.ix, before, s.calls + 1⟩, ?_, hspares⟩)
        fun hok => (hfails hok).elim
      simp only [commit, nextCall, Prog.get, Prog.modify, Prog.fail, bind, pure, he, if_neg hlost]

/-- A transaction: inside it a failure leaves the database it began on. -/
theorem obeys_inBlockTx {fn : Ix Unit} {begins commits : Nat → Bool}
    (hbegin : begins s.calls = true → E s.ix s.db)
    (hfn : ∀ t : Sys, On (At s.ix s.db) t → t.calls = s.calls + 1 →
      Obeys Sys.calls script fn t (fun _ => On Q) (On fun ix _ => E ix s.db))
    (hcommit : ∀ (t : Sys) n, On Q t → commits n = true →
      if o.lost n = true then E t.ix t.db else E t.ix s.db) :
    Obeys Sys.calls (site o false begins :: (script ++ [site o false commits])) (inBlockTx o fn) s
      (fun _ => On Q) (On E) := by
  have hrequest : Obeys Sys.calls [site o false begins] (request o) s
      (fun _ => On (At s.ix s.db)) (On E) := by
    rw [← bind_pure (request o)]
    exact obeys_request hbegin (fun h => (by cases h)) fun _ => ⟨_, _, rfl, rfl, rfl, rfl⟩
  refine Obeys.bind (u := [_]) hrequest fun _ t ht hcalls => ?_
  refine Obeys.bind (u := []) (Obeys.get (R := fun r t' => r = t ∧ t' = t) ⟨rfl, rfl⟩)
    fun r t' heq _ => ?_
  obtain ⟨rfl, rfl⟩ := heq
  rw [ht.2]
  refine Obeys.bind ((hfn _ ht hcalls).onFailure (F := On E) fun u hu => hu) fun _ u hu _ => ?_
  exact (obeys_commit (hcommit u u.calls hu)).conseq
    (fun _ v hv => by rw [On, hv.1, hv.2]; exact hu) fun _ h => h

end Calls

end Indexer

end ArkSwap.GoInternal
