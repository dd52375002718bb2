import ArkSwap.IndexerContent
import ArkSwap.IndexerSchema

/-! A Tick whose walks over the maps of the process come in any order: the pairs
asked for, the records written and the pools priced are listed anew each time. -/

namespace ArkSwap.GoInternal

open Prog

/-- The order of each walk, by the number of calls made before it. -/
structure Walks where
  pairs : Nat → List (Address × Pair) → List (Address × Pair)
  tokens : Nat → List Token → List Token
  pairs_perm : ∀ k entries, (pairs k entries).Perm entries
  tokens_perm : ∀ k ts, (tokens k ts).Perm ts

namespace Indexer

section Programs

variable (cfg : Config) (o : Outside) (w : Walks)

def fetchLogsBy (fromBlock toBlock : Nat) : Ix (List Log) := do
  let factoryLogs ← filterLogs o fromBlock toBlock [cfg.factoryAddress] [.pairCreated]
  let s ← Prog.get
  let pairAddrs := (w.pairs s.calls s.ix.knownPairs.toList).map Prod.fst ++ announced factoryLogs
  if pairAddrs = [] then pure factoryLogs
  else do
    let pairLogs ← filterLogs o fromBlock toBlock pairAddrs pairTopics
    pure (factoryLogs ++ pairLogs)

def pricingEngineBy (k : Nat) (ix : Indexer) : Engine :=
  { pools := sortPoolsByAddress ((w.pairs k ix.knownPairs.toList).map fun e => ix.pool e.2)
    minLiquidityUSD := cfg.minPriceLiquidityUSD }

def snapshotWith (engine : Engine) (ix : Indexer) (timestamp : Nat) (address : Address) (p : Pair)
    (bucket : Nat) : PairSnapshot :=
  let t0 := ix.token p.token0Address
  let t1 := ix.token p.token1Address
  let price0 := (engine.priceUSD t0).map Price.usd
  let price1 := (engine.priceUSD t1).map Price.usd
  { pairAddress := address, bucketSeconds := bucket,
    timestampBucket := floorBucket timestamp bucket, reserve0 := p.reserve0,
    reserve1 := p.reserve1, token0PriceUSD := price0, token1PriceUSD := price1,
    tvlUSD := pairTVL p.reserve0 t0 price0 p.reserve1 t1 price1 }

def writeSnapshotsBy (header : Block) (logs : List Log) : Ix Unit := do
  let s ← Prog.get
  let engine := pricingEngineBy cfg w s.calls s.ix
  Prog.forEach (fun snap => exec o (Database.upsertPairSnapshot snap))
    ((syncedPairs logs).flatMap fun address =>
      match s.ix.knownPairs[address]? with
      | none => []
      | some p => [bucketHour, bucketDay].map (snapshotWith engine s.ix header.timestamp address p))

def writeBlockBy (header : Block) (number : Nat) (newTokens : List Token) (logs : List Log) :
    Ix Unit := do
  exec o (Database.insertBlock header)
  let s ← Prog.get
  Prog.forEach (fun t => exec o (Database.upsertToken t)) (w.tokens s.calls newTokens)
  Prog.forEach (writeLog cfg o header) logs
  writeSnapshotsBy cfg o w header logs
  setCursor cfg o number header

def processBlockBy (number : Nat) (logs : List Log) : Ix Unit := do
  let header ← headerByNumber o number
  let newTokens ← fetchTokens cfg o (createdTokens logs) []
  inBlockTx o (writeBlockBy cfg o w header number newTokens logs)

def indexLogsBy (toBlock : Nat) (logs : List Log) : Ix Unit := do
  let logs := sortLogs logs
  Prog.forEach (fun bn => processBlockBy cfg o w bn (logs.filter fun l => l.blockNumber = bn))
    (blockNums logs)
  let head ← headerByNumber o toBlock
  inBlockTx o (setCursor cfg o toBlock head)

def processRangeBy (fromBlock toBlock : Nat) : Ix Unit := do
  let fetched ← Prog.attempt (fetchLogsBy cfg o w fromBlock toBlock)
  match fetched with
  | .error e => refused e
  | .ok logs => indexLogsBy cfg o w toBlock logs

def advanceBy (safe : Nat) : Ix Unit := do
  let fromBlock ← startBlock cfg o
  if safe < fromBlock then pure ()
  else do
    let s ← Prog.get
    processRangeBy cfg o w fromBlock (rangeEnd fromBlock s.ix.batchSize safe)

def tickBy : Ix Unit := do
  let head ← blockNumber o
  checkReorg cfg o
  advanceBy cfg o w (safeBlock cfg head)

end Programs

variable {cfg : Config} {o : Outside} {w : Walks} {c : Chain} {chains : Set Chain}
variable {header : Block} {ix ix' : Indexer} {db db' : Database} {s t : Sys} {logs : List Log}
variable {tokens : List Token} {number fromBlock toBlock : Nat}

/-- Every pair in memory is under its own address. -/
def Keyed (ix : Indexer) : Prop := ∀ (a : Address) p, ix.knownPairs[a]? = some p → p.address = a

section Engine

instance : Std.Total fun p q : Pool => p.address ≤ q.address := ⟨fun p q => le_total p.address q.address⟩

instance : IsTrans Pool fun p q => p.address ≤ q.address := ⟨fun _ _ _ => le_trans⟩

/-- The pools are priced in the order of their addresses, however they were listed. -/
theorem pricingEngineBy_eq (hkeyed : Keyed ix) (k : Nat) :
    pricingEngineBy cfg w k ix = pricingEngine cfg ix := by
  have hlisted : ((w.pairs k ix.knownPairs.toList).map fun e => ix.pool e.2).Perm
      (ix.knownPairs.rows.map ix.pool) := by
    rw [Table.rows, List.map_map]
    exact (w.pairs_perm k _).map _
  have hperm : (sortPoolsByAddress ((w.pairs k ix.knownPairs.toList).map fun e => ix.pool e.2)).Perm
      (sortPoolsByAddress (ix.knownPairs.rows.map ix.pool)) :=
    (List.perm_insertionSort _ _).trans (hlisted.trans (List.perm_insertionSort _ _).symm)
  have hentry : ∀ q ∈ ix.knownPairs.rows.map ix.pool, ∃ p : Pair,
      ix.knownPairs[q.address]? = some p ∧ ix.pool p = q := by
    intro q hq
    obtain ⟨p, hp, rfl⟩ := List.mem_map.mp hq
    obtain ⟨a, ha⟩ := Table.mem_rows.mp hp
    refine ⟨p, ?_, rfl⟩
    rw [show (ix.pool p).address = a from hkeyed a p ha]
    exact ha
  have hone : ∀ q r, q ∈ sortPoolsByAddress ((w.pairs k ix.knownPairs.toList).map fun e => ix.pool e.2) →
      r ∈ sortPoolsByAddress (ix.knownPairs.rows.map ix.pool) → q.address ≤ r.address →
      r.address ≤ q.address → q = r := by
    intro q r hq hr hle hge
    obtain ⟨p, hp, rfl⟩ := hentry q (hlisted.subset ((List.mem_insertionSort _).mp hq))
    obtain ⟨p', hp', rfl⟩ := hentry r ((List.mem_insertionSort _).mp hr)
    rw [le_antisymm hle hge] at hp
    cases hp.symm.trans hp'
    rfl
  rw [pricingEngineBy, pricingEngine, List.Perm.eq_of_pairwise hone (List.pairwise_insertionSort _ _)
    (List.pairwise_insertionSort _ _) hperm]

theorem writeSnapshotsBy_eq (hkeyed : Keyed s.ix) :
    writeSnapshotsBy cfg o w header logs s = writeSnapshots cfg o header logs s := by
  change forEach _ _ s = forEach _ _ s
  rw [pricingEngineBy_eq hkeyed]
  rfl

end Engine

theorem writeBlockBy_grows : Grows Sys.calls (writeBlockBy cfg o w header number tokens logs) :=
  (exec_grows _).bind fun _ => Grows.get.bind fun _ =>
    (Grows.forEach (fun _ => exec_grows _) _).bind fun _ =>
      (Grows.forEach writeLog_grows _).bind fun _ =>
        (Grows.get.bind fun _ => Grows.forEach (fun _ => exec_grows _) _).bind fun _ => exec_grows _

theorem processBlockBy_grows : Grows Sys.calls (processBlockBy cfg o w number logs) :=
  headerByNumber_grows.bind fun _ => (fetchTokens_grows _ _).bind fun _ =>
    inBlockTx_grows writeBlockBy_grows

section Block

variable {u v : Token} {ts : List Token}

theorem upsertToken_comm (h : u.address ≠ v.address) (db : Database) :
    (Database.upsertToken v).effect ((Database.upsertToken u).effect db) =
      (Database.upsertToken u).effect ((Database.upsertToken v).effect db) := by
  rcases hu : u.address with _ | a
  · simp [Database.upsertToken, hu]
  · rcases hv : v.address with _ | b
    · simp [Database.upsertToken, hv]
    · have hab : a ≠ b := fun hab => h (by rw [hu, hv, hab])
      have hba : b ≠ a := fun hba => hab hba.symm
      simp only [Database.upsertToken, hu, hv, Table.get_insert, if_neg hab, if_neg hba]
      congr 1
      refine Std.ExtTreeMap.ext_getElem? fun k => ?_
      rw [Table.get_insert, Table.get_insert, Table.get_insert, Table.get_insert]
      by_cases hka : k = a
      · have hkb : k ≠ b := by
          rw [hka]
          exact hab
        simp only [if_pos hka, if_neg hkb]
      · simp only [if_neg hka]

theorem upsertTokens_perm (hperm : ts.Perm tokens)
    (hdistinct : tokens.Pairwise fun u v => u.address ≠ v.address)
    (hrun : runAll (ts.map Database.upsertToken) db = some db') :
    runAll (tokens.map Database.upsertToken) db = some db' := by
  have hiff : ∀ us : List Token, (∃ d, runAll (us.map Database.upsertToken) db = some d) ↔
      ∀ st ∈ us.map Database.upsertToken, st.allowed db = true := by
    intro us
    refine runAll_some_iff (P := fun _ => True) (A := fun st => st.allowed db = true)
      (fun _ _ _ _ => True.intro) (fun st hst d _ => ?_) True.intro
    obtain ⟨x, -, rfl⟩ := List.mem_map.mp hst
    exact Iff.rfl
  have hallowed := (hiff ts).mp ⟨db', hrun⟩
  obtain ⟨d, hd⟩ := (hiff tokens).mpr fun st hst => hallowed st ((hperm.map _).symm.subset hst)
  have hcomm : ∀ x ∈ ts, ∀ y ∈ ts, ∀ z, (Database.upsertToken y).effect ((Database.upsertToken x).effect z) =
      (Database.upsertToken x).effect ((Database.upsertToken y).effect z) := by
    intro x hx y hy z
    by_cases hxy : x = y
    · rw [hxy]
    · have : Std.Symm fun u v : Token => u.address ≠ v.address := ⟨fun _ _ h => h.symm⟩
      exact upsertToken_comm (hdistinct.forall (hperm.subset hx) (hperm.subset hy) hxy) z
  have hsame := List.Perm.foldl_eq' (f := fun d x => (Database.upsertToken x).effect d) hperm hcomm db
  rw [runAll_effect hrun, hd, runAll_effect hd, List.foldl_map, List.foldl_map, hsame]

theorem Keyed.memoryLog (h : Keyed ix) (l : Log) : Keyed (Indexer.memoryLog cfg header ix l) := by
  rw [Indexer.memoryLog]
  rcases ha : applyLog cfg header ix l with _ | ⟨statement, ix₁⟩
  · exact h
  · intro a p hp
    cases applied_of_applyLog ha with
    | created q hq =>
      change (ix.knownPairs.insert q.address q)[a]? = some p at hp
      rw [Table.get_insert] at hp
      split at hp
      · rename_i haq
        rw [← Option.some.inj hp]
        exact haq.symm
      · exact h a p hp
    | synced ev htopic hev =>
      change (ix.knownPairs.modify l.address _)[a]? = some p at hp
      rw [Table.get_modify] at hp
      split at hp
      · rename_i hal
        obtain ⟨q, hq, rfl⟩ := Option.map_eq_some_iff.mp hp
        rw [hal]
        exact h _ q hq
      · exact h a p hp
    | swapped w q hw hq => exact h a p hp
    | deposited e he => exact h a p hp

theorem Keyed.foldl (h : Keyed ix) : Keyed (logs.foldl (Indexer.memoryLog cfg header) ix) := by
  induction logs generalizing ix with
  | nil => exact h
  | cons l logs ih => exact ih (h.memoryLog l)

theorem exec_ok {statement : Statement} (h : exec o statement s = (.ok (), t)) :
    t.ix = s.ix ∧ statement.run s.db = some t.db := by
  refine (exec_triple (P := At s.ix s.db) (Q := fun ix' db' => ix' = s.ix ∧
    statement.run s.db = some db') ?_ s ⟨rfl, rfl⟩).1 () t h
  rintro ix' db' ⟨hix, rfl⟩ hallowed
  exact ⟨hix, if_pos hallowed⟩

theorem writeBlockBy_ok (hkeyed : Keyed s.ix)
    (hdistinct : tokens.Pairwise fun u v => u.address ≠ v.address)
    (h : writeBlockBy cfg o w header number tokens logs s = (.ok (), t)) :
    indexBlock cfg header number tokens logs (s.ix, s.db) = some (t.ix, t.db) := by
  obtain ⟨_, s₁, hblock, h⟩ := bind_eq_ok.mp h
  obtain ⟨r, s₂, hget, h⟩ := bind_eq_ok.mp h
  cases hget
  obtain ⟨_, s₃, htokens, h⟩ := bind_eq_ok.mp h
  obtain ⟨_, s₄, hlogs, h⟩ := bind_eq_ok.mp h
  obtain ⟨_, s₅, hsnapshots, hcursor⟩ := bind_eq_ok.mp h
  obtain ⟨hix₁, hrun₁⟩ := exec_ok hblock
  obtain ⟨hix₃, hrun₃⟩ := (execAll_triple s₁.ix s₁.db _ s₁ ⟨rfl, rfl⟩).1 () s₃ htokens
  have hrun₄ : logs.foldlM (stepLog cfg header) (s₃.ix, s₃.db) = some (s₄.ix, s₄.db) :=
    (writeLogs_triple s₃.ix s₃.db logs s₃ ⟨rfl, rfl⟩).1 () s₄ hlogs
  have hmemory : s₄.ix = logs.foldl (memoryLog cfg header) s₃.ix := foldlM_memory hrun₄
  have hkeyed₄ : Keyed s₄.ix := by
    rw [hmemory, hix₃, hix₁]
    exact hkeyed.foldl
  rw [writeSnapshotsBy_eq hkeyed₄] at hsnapshots
  have hclosing : (writeSnapshots cfg o header logs >>= fun _ => setCursor cfg o number header) s₄ =
      (.ok (), t) := bind_eq_ok.mpr ⟨(), s₅, hsnapshots, hcursor⟩
  obtain ⟨hix, hclose⟩ := (closing_triple s₄.ix s₄.db s₄ ⟨rfl, rfl⟩).1 () t hclosing
  have hopen : runAll (openingStatements header tokens) s.db = some s₃.db := by
    rw [openingStatements, runAll, List.foldlM_cons, hrun₁]
    exact upsertTokens_perm (w.tokens_perm _ _) hdistinct hrun₃
  rw [hix₃, hix₁] at hrun₄
  simp only [indexBlock, hopen, hrun₄, hclose, hix, Option.bind_eq_bind, Option.bind_some]
  rfl

theorem inBlockTx_ok {fn : Ix Unit} (h : inBlockTx o fn s = (.ok (), t)) :
    ∃ r, fn { s with calls := s.calls + 1 } = (.ok (), r) ∧ t = { r with calls := r.calls + 1 } := by
  obtain ⟨k, s₁, hrequest, h⟩ := bind_eq_ok.mp h
  obtain ⟨r, s₂, hget, h⟩ := bind_eq_ok.mp h
  cases hget
  obtain ⟨_, s₃, hbody, hcommit⟩ := bind_eq_ok.mp h
  have hs₁ : s₁ = { s with calls := s.calls + 1 } := by
    rcases he : o.error s.calls with _ | e
    · simp only [request, nextCall, Prog.get, Prog.modify, bind, pure, he] at hrequest
      cases hrequest
      rfl
    · simp only [request, nextCall, Prog.get, Prog.modify, Prog.fail, bind, pure, he] at hrequest
      cases hrequest
  have hfn : fn s₁ = (.ok (), s₃) := by
    rcases hx : fn s₁ with ⟨e | a, r⟩
    · simp only [Prog.onFailure, hx] at hbody
      cases hbody
    · simp only [Prog.onFailure, hx] at hbody
      exact hbody
  rw [hs₁] at hfn
  refine ⟨s₃, hfn, ?_⟩
  rcases he : o.error s₃.calls with _ | e
  · simp only [commit, nextCall, Prog.get, Prog.modify, bind, pure, he] at hcommit
    cases hcommit
    rfl
  · simp only [commit, nextCall, Prog.get, Prog.modify, Prog.fail, bind, pure, he] at hcommit
    cases hcommit

/-- What a block that returns has read and written; its tokens were read before the
last call. -/
theorem processBlockBy_ok (hkeyed : Keyed s.ix)
    (h : processBlockBy cfg o w number logs s = (.ok (), t)) :
    ∃ header s₁ ts s₂, (∃ k, (o.chain k).headerAt number = some header) ∧
      fetchTokens cfg o (createdTokens logs) [] s₁ = (.ok ts, s₂) ∧ s₂.calls < t.calls ∧
      indexBlock cfg header number ts logs (s.ix.loadTokens ts, s.db) = some (t.ix, t.db) := by
  obtain ⟨header, s₁, hheader, hrest⟩ := bind_eq_ok.mp h
  obtain ⟨ts, s₂, hfetch, htx⟩ := bind_eq_ok.mp hrest
  obtain ⟨hat, hchain⟩ := (headerByNumber_triple (P := At s.ix s.db) s ⟨rfl, rfl⟩).1 header s₁ hheader
  obtain ⟨⟨hix, hdb⟩, hfetched⟩ := (fetchTokens_triple s.ix s.db (createdTokens logs) [] []
    ⟨by simp, by simp, List.Pairwise.nil⟩ s₁ hat).1 ts s₂ hfetch
  obtain ⟨r, hbody, rfl⟩ := inBlockTx_ok htx
  have hkeyed₂ : Keyed s₂.ix := by
    rw [hix]
    exact hkeyed
  have hindex := writeBlockBy_ok (s := { s₂ with calls := s₂.calls + 1 }) hkeyed₂ hfetched.distinct hbody
  have hle := writeBlockBy_grows.le hbody
  refine ⟨header, s₁, ts, s₂, hchain, hfetch, ?_, ?_⟩
  · dsimp only at hle ⊢
    omega
  · rw [← hindex, hix, hdb]

end Block

end Indexer

end ArkSwap.GoInternal
