import ArkSwap.IndexerCalls

/-! One block as a function of memory and database, and what the transaction
for it leaves: that function's result, or the database as it was. -/

namespace ArkSwap.GoInternal

open Prog

def Statement.run (statement : Statement) (db : Database) : Option Database :=
  if statement.allowed db then some (statement.effect db) else none

namespace Indexer

variable {cfg : Config} {o : Outside} {header : Block}

def runAll (statements : List Statement) (db : Database) : Option Database :=
  statements.foldlM (fun db statement => statement.run db) db

/-- A log as a step on memory and database. -/
def stepLog (cfg : Config) (header : Block) (s : Indexer × Database) (l : Log) :
    Option (Indexer × Database) :=
  match applyLog cfg header s.1 l with
  | none => some s
  | some (statement, ix) => (statement.run s.2).map fun db => (ix, db)

def cursorAt (cfg : Config) (number : Nat) (header : Block) : Statement :=
  Database.setIndexerState { chainID := cfg.chainID, lastProcessedBlock := number,
                             lastProcessedBlockHash := header.hash }

def snapshotStatements (cfg : Config) (header : Block) (ix : Indexer) (logs : List Log) :
    List Statement :=
  (snapshotPairs cfg header ix (syncedPairs logs)).map Database.upsertPairSnapshot

/-- The statements of a block before those for its logs. -/
def openingStatements (header : Block) (newTokens : List Token) : List Statement :=
  Database.insertBlock header :: newTokens.map Database.upsertToken

/-- A block's logs, then its snapshots, then the cursor. -/
def indexBlock (cfg : Config) (header : Block) (number : Nat) (newTokens : List Token)
    (logs : List Log) (s : Indexer × Database) : Option (Indexer × Database) := do
  let db ← runAll (openingStatements header newTokens) s.2
  let t ← logs.foldlM (stepLog cfg header) (s.1, db)
  let db ← runAll (snapshotStatements cfg header t.1 logs ++ [cursorAt cfg number header]) t.2
  pure (t.1, db)

/-- What a log leaves in memory, whether or not its statement was executed. -/
def memoryLog (cfg : Config) (header : Block) (ix : Indexer) (l : Log) : Indexer :=
  match applyLog cfg header ix l with
  | none => ix
  | some (_, ix) => ix

theorem stepLog_memory {s t : Indexer × Database} {l : Log}
    (h : stepLog cfg header s l = some t) : t.1 = memoryLog cfg header s.1 l := by
  rw [stepLog] at h
  rw [memoryLog]
  rcases ha : applyLog cfg header s.1 l with _ | ⟨statement, ix⟩
  · rw [ha] at h
    exact congrArg Prod.fst (Option.some.inj h).symm
  · rw [ha] at h
    obtain ⟨db, -, rfl⟩ := Option.map_eq_some_iff.mp h
    rfl

theorem foldlM_memory {s t : Indexer × Database} {logs : List Log}
    (h : logs.foldlM (stepLog cfg header) s = some t) :
    t.1 = logs.foldl (memoryLog cfg header) s.1 := by
  induction logs generalizing s with
  | nil => exact congrArg Prod.fst (Option.some.inj h).symm
  | cons l logs ih =>
    rw [List.foldlM_cons] at h
    obtain ⟨r, hr, ht⟩ := Option.bind_eq_some_iff.mp h
    rw [List.foldl_cons, ih ht, stepLog_memory hr]

/-- What the step of each log keeps, the logs of a block keep. -/
theorem stepLogs_inv {P : Indexer → Database → Prop} {logs : List Log} {ix ix' : Indexer}
    {db db' : Database} (hstep : ∀ l ∈ logs, ∀ ix db ix' db', P ix db →
      stepLog cfg header (ix, db) l = some (ix', db') → P ix' db') (h : P ix db)
    (hfold : logs.foldlM (stepLog cfg header) (ix, db) = some (ix', db')) : P ix' db' := by
  induction logs generalizing ix db with
  | nil =>
    cases hfold
    exact h
  | cons l logs ih =>
    rw [List.foldlM_cons] at hfold
    obtain ⟨⟨ix₁, db₁⟩, hlog, hrest⟩ := Option.bind_eq_some_iff.mp hfold
    exact ih (fun k hk => hstep k (List.mem_cons_of_mem l hk))
      (hstep l List.mem_cons_self ix db ix₁ db₁ h hlog) hrest

/-- The memory is what it was, with the new tokens and some first part of the
logs applied. -/
def Partial (cfg : Config) (header : Block) (newTokens : List Token) (logs : List Log)
    (ix ix' : Indexer) : Prop :=
  ∃ done, done <+: logs ∧ ix' = done.foldl (memoryLog cfg header) (ix.loadTokens newTokens)

section Statements

/-- Memory and database as they are at some point. -/
def At (ix : Indexer) (db : Database) : Indexer → Database → Prop :=
  fun ix' db' => ix' = ix ∧ db' = db

theorem execAll_triple {α : Type} {f : α → Statement} (ix : Indexer) (db : Database) (as : List α) :
    Triple (On (At ix db)) (forEach (fun a => exec o (f a)) as)
      (fun _ => On fun ix' db' => ix' = ix ∧ runAll (as.map f) db = some db')
      (On fun ix' _ => ix' = ix) := by
  refine Triple.conseq (Triple.forEach (fun rest => On fun ix' db' => ix' = ix ∧
    ∃ done, done ++ rest = as ∧ runAll (done.map f) db = some db') ?_ as) ?_ ?_ (fun _ hs => hs)
  · intro a rest
    refine Triple.conseq (exec_triple (P := fun ix' db' => ix' = ix ∧
      ∃ done, done ++ a :: rest = as ∧ runAll (done.map f) db = some db') ?_)
      (fun _ hs => hs) (fun _ _ hs => hs) fun s hs => hs.1
    rintro ix' db' ⟨hix, done, hdone, hrun⟩ hallowed
    refine ⟨hix, done ++ [a], by rw [List.append_assoc, List.singleton_append, hdone], ?_⟩
    rw [runAll, List.map_append, List.foldlM_append, ← runAll, hrun]
    simp [Statement.run, hallowed]
  · rintro s ⟨hix, rfl⟩
    exact ⟨hix, [], rfl, rfl⟩
  · rintro - s ⟨hix, done, hdone, hrun⟩
    rw [List.append_nil] at hdone
    rw [← hdone]
    exact ⟨hix, hrun⟩

theorem writeLog_triple (ix : Indexer) (db : Database) {l : Log} :
    Triple (On (At ix db)) (writeLog cfg o header l)
      (fun _ => On fun ix' db' => stepLog cfg header (ix, db) l = some (ix', db'))
      (On fun ix' _ => ix' = ix) := by
  refine Triple.bind (Triple.get (R := fun r s => On (At ix db) s ∧ r = s)
    fun _ hs => ⟨hs, rfl⟩) fun r => ?_
  intro s hs
  obtain ⟨⟨hix, hdb⟩, rfl⟩ := hs
  have hs : On (At ix db) r := ⟨hix, hdb⟩
  rw [hix]
  rcases ha : applyLog cfg header ix l with _ | ⟨statement, ix₁⟩
  · refine Triple.pure (P := On (At ix db)) (fun s hs => ?_) r hs
    rw [On, stepLog]
    simp only [ha]
    rw [hs.1, hs.2]
  · refine Triple.bind (P := On (At ix db)) (Triple.conseq (exec_triple (P := At ix db)
      (Q := fun ix' db' => ix' = ix ∧ statement.run db = some db') ?_) (fun _ hs => hs)
      (fun _ _ hs => hs) fun _ hs => hs.1) (fun _ => remember_triple ?_) r hs
    · rintro ix' db' ⟨hix', rfl⟩ hallowed
      exact ⟨hix', if_pos hallowed⟩
    · rintro ix' db' ⟨-, hrun⟩
      rw [stepLog]
      simp only [ha, hrun]
      rfl

theorem writeLogs_triple (ix : Indexer) (db : Database) (logs : List Log) :
    Triple (On (At ix db)) (forEach (writeLog cfg o header) logs)
      (fun _ => On fun ix' db' => logs.foldlM (stepLog cfg header) (ix, db) = some (ix', db'))
      (On fun ix' _ => ∃ done, done <+: logs ∧ ix' = done.foldl (memoryLog cfg header) ix) := by
  refine Triple.conseq (Triple.forEach (fun rest => On fun ix' db' =>
    ∃ done, done ++ rest = logs ∧ done.foldlM (stepLog cfg header) (ix, db) = some (ix', db'))
    ?_ logs) ?_ ?_ (fun _ hs => hs)
  · intro l rest s hs
    obtain ⟨done, hdone, hfold⟩ := hs
    refine Triple.conseq (writeLog_triple s.ix s.db) (fun _ hs => hs) ?_ ?_ s
      ⟨rfl, rfl⟩
    · rintro - t ht
      refine ⟨done ++ [l], by rw [List.append_assoc, List.singleton_append, hdone], ?_⟩
      have hstep : stepLog cfg header (s.ix, s.db) l = some (t.ix, t.db) := ht
      rw [List.foldlM_append, hfold]
      simpa using hstep
    · intro t ht
      exact ⟨done, ⟨l :: rest, hdone⟩, ht.trans (foldlM_memory hfold)⟩
  · rintro s ⟨rfl, rfl⟩
    exact ⟨[], rfl, rfl⟩
  · rintro - s ⟨done, hdone, hfold⟩
    rw [List.append_nil] at hdone
    rw [← hdone]
    exact hfold

end Statements

/-- A record that the given configuration makes of some answers of a token. -/
def Metadata (cfg : Config) (abi : ERC20ABI) (t : Token) : Prop :=
  ∃ address name symbol decimals,
    t = applyTokenFlags cfg (tokenMetadata abi address name symbol decimals)

theorem callContract_triple {P : Indexer → Database → Prop} {address : Address} {method : Method} :
    Triple (On P) (callContract o address method) (fun _ => On P) fun _ => False :=
  Triple.bind nextCall_triple fun _ => Triple.pure fun _ hs => hs

theorem fetchToken_triple {P : Indexer → Database → Prop} {address : Address} :
    Triple (On P) (fetchToken cfg o address)
      (fun t => On fun ix db => P ix db ∧ Metadata cfg o.abi t ∧ t.address = some address)
      fun _ => False := by
  refine Triple.bind callContract_triple fun name => ?_
  refine Triple.bind callContract_triple fun symbol => ?_
  refine Triple.bind callContract_triple fun decimals => ?_
  exact Triple.pure fun _ hs => ⟨hs, ⟨address, name, symbol, decimals, rfl⟩, rfl⟩

/-- The records fetched are those of the addresses not seen before, each once. -/
structure Fetched (cfg : Config) (abi : ERC20ABI) (addresses : List Address) (tokens : List Token) :
    Prop where
  metadata : ∀ t ∈ tokens, Metadata cfg abi t ∧ ∃ a ∈ addresses, t.address = some a
  covers : ∀ a ∈ addresses, ∃ t ∈ tokens, t.address = some a
  distinct : tokens.Pairwise fun t u => t.address ≠ u.address

theorem loadTokens_append (ix : Indexer) (ts us : List Token) :
    ix.loadTokens (ts ++ us) = (ix.loadTokens ts).loadTokens us := by
  simp [loadTokens]

theorem fetchTokens_triple (ix : Indexer) (db : Database) (addresses seen : List Address)
    (tokens : List Token) (hseen : Fetched cfg o.abi seen tokens) :
    Triple (On (At (ix.loadTokens tokens) db)) (fetchTokens cfg o addresses tokens)
      (fun ts => On fun ix' db' => At (ix.loadTokens ts) db ix' db' ∧
        Fetched cfg o.abi (seen ++ addresses) ts) fun _ => False := by
  induction addresses generalizing seen tokens with
  | nil => exact Triple.pure fun s hs => ⟨hs, by rwa [List.append_nil]⟩
  | cons a addresses ih =>
    rw [fetchTokens]
    by_cases hany : (tokens.any fun t => t.address == some a) = true
    · rw [if_pos hany]
      have hknown : ∃ t ∈ tokens, t.address = some a := by simpa using hany
      have hseen' : Fetched cfg o.abi (seen ++ [a]) tokens := by
        refine ⟨fun t ht => ?_, fun b hb => ?_, hseen.distinct⟩
        · obtain ⟨hmeta, b, hb, hab⟩ := hseen.metadata t ht
          exact ⟨hmeta, b, List.mem_append_left _ hb, hab⟩
        · rcases List.mem_append.mp hb with hb | hb
          · exact hseen.covers b hb
          · rw [List.mem_singleton.mp hb]
            exact hknown
      have h := ih (seen ++ [a]) tokens hseen'
      rwa [List.append_assoc, List.singleton_append] at h
    · rw [if_neg hany]
      have hnew : ∀ t ∈ tokens, t.address ≠ some a := by simpa using hany
      refine Triple.bind fetchToken_triple fun t => ?_
      refine Triple.bind (remember_triple (Q := fun ix' db' => At (ix.loadTokens (tokens ++ [t])) db
        ix' db' ∧ Metadata cfg o.abi t ∧ t.address = some a) ?_) fun _ => ?_
      · rintro ix' db' ⟨⟨rfl, rfl⟩, hmeta, hta⟩
        refine ⟨⟨?_, rfl⟩, hmeta, hta⟩
        rw [loadTokens_append]
        simp [loadTokens, hta]
      · intro s hs
        obtain ⟨hat, hmeta, hta⟩ := hs
        have hseen' : Fetched cfg o.abi (seen ++ [a]) (tokens ++ [t]) := by
          refine ⟨fun u hu => ?_, fun b hb => ?_, ?_⟩
          · rcases List.mem_append.mp hu with hu | hu
            · obtain ⟨hmeta', b, hb, hab⟩ := hseen.metadata u hu
              exact ⟨hmeta', b, List.mem_append_left _ hb, hab⟩
            · rw [List.mem_singleton.mp hu]
              exact ⟨hmeta, a, List.mem_append_right _ List.mem_cons_self, hta⟩
          · rcases List.mem_append.mp hb with hb | hb
            · obtain ⟨u, hu, hub⟩ := hseen.covers b hb
              exact ⟨u, List.mem_append_left _ hu, hub⟩
            · rw [List.mem_singleton.mp hb]
              exact ⟨t, List.mem_append_right _ List.mem_cons_self, hta⟩
          · refine List.pairwise_append.mpr ⟨hseen.distinct, List.pairwise_singleton _ t, ?_⟩
            intro u hu v hv
            rw [List.mem_singleton.mp hv, hta]
            exact hnew u hu
        have h := ih (seen ++ [a]) (tokens ++ [t]) hseen'
        rw [List.append_assoc, List.singleton_append] at h
        exact h s hat

theorem runAll_append {ss ts : List Statement} {db db' db'' : Database}
    (hs : runAll ss db = some db') (ht : runAll ts db' = some db'') :
    runAll (ss ++ ts) db = some db'' := by
  rw [runAll, List.foldlM_append, ← runAll, hs]
  exact ht

theorem opening_triple (ix : Indexer) (db : Database) {tokens : List Token} :
    Triple (On (At ix db))
      (exec o (Database.insertBlock header) >>= fun _ =>
        forEach (fun t => exec o (Database.upsertToken t)) tokens)
      (fun _ => On fun ix' db' => ix' = ix ∧ runAll (openingStatements header tokens) db = some db')
      (On fun ix' _ => ix' = ix) := by
  refine Triple.bind (Triple.conseq (exec_triple (P := At ix db) (Q := fun ix' db' => ix' = ix ∧
    (Database.insertBlock header).run db = some db') ?_) (fun _ hs => hs) (fun _ _ hs => hs)
    fun _ hs => hs.1) fun _ => ?_
  · rintro ix' db' ⟨hix, rfl⟩ hallowed
    exact ⟨hix, if_pos hallowed⟩
  · rintro s ⟨hix, hrun⟩
    refine Triple.conseq (execAll_triple s.ix s.db tokens) (fun _ hs => hs) ?_ ?_ s
      ⟨rfl, rfl⟩
    · rintro - t ⟨ht, htokens⟩
      refine ⟨ht.trans hix, ?_⟩
      rw [openingStatements, runAll, List.foldlM_cons, hrun]
      exact htokens
    · rintro t ht
      exact ht.trans hix

theorem closing_triple (ix : Indexer) (db : Database) {number : Nat} {logs : List Log} :
    Triple (On (At ix db))
      (writeSnapshots cfg o header logs >>= fun _ => setCursor cfg o number header)
      (fun _ => On fun ix' db' => ix' = ix ∧
        runAll (snapshotStatements cfg header ix logs ++ [cursorAt cfg number header]) db = some db')
      (On fun ix' _ => ix' = ix) := by
  refine Triple.bind (Q := fun _ => On fun ix' db' => ix' = ix ∧
    runAll (snapshotStatements cfg header ix logs) db = some db') ?_ fun _ => ?_
  · refine Triple.bind (Triple.get (R := fun r s => On (At ix db) s ∧ r = s)
      fun _ hs => ⟨hs, rfl⟩) fun r => ?_
    rintro s ⟨hat, rfl⟩
    rw [hat.1]
    exact execAll_triple ix db _ r hat
  · rintro s ⟨hix, hrun⟩
    refine Triple.conseq (exec_triple (P := At ix s.db) (Q := fun ix' db' => ix' = ix ∧
      (cursorAt cfg number header).run s.db = some db') ?_) (fun _ hs => hs) ?_ (fun _ hs => hs.1) s
      ⟨hix, rfl⟩
    · rintro ix' db' ⟨hix', rfl⟩ hallowed
      exact ⟨hix', if_pos hallowed⟩
    · rintro - t ⟨ht, hcursor⟩
      refine ⟨ht, runAll_append hrun ?_⟩
      rw [runAll, List.foldlM_cons, hcursor]
      rfl

theorem writeBlock_triple {ix : Indexer} {db : Database} {number : Nat} {tokens : List Token}
    {logs : List Log} :
    Triple (On (At ix db))
      (writeBlock cfg o header number tokens logs)
      (fun _ => On fun ix' db' =>
        indexBlock cfg header number tokens logs (ix, db) = some (ix', db') ∧
          ix' = logs.foldl (memoryLog cfg header) ix)
      (On fun ix' _ => ∃ done, done <+: logs ∧ ix' = done.foldl (memoryLog cfg header) ix) := by
  have hstart : ∀ s : Sys, s.ix = ix →
      ∃ done, done <+: logs ∧ s.ix = done.foldl (memoryLog cfg header) ix :=
    fun s hs => ⟨[], List.nil_prefix, hs⟩
  have hopening : Triple (On (At ix db))
      (exec o (Database.insertBlock header) >>= fun _ =>
        forEach (fun t => exec o (Database.upsertToken t)) tokens)
      (fun _ => On fun ix' db' => ix' = ix ∧ runAll (openingStatements header tokens) db = some db')
      (On fun ix' _ => ∃ done, done <+: logs ∧ ix' = done.foldl (memoryLog cfg header) ix) :=
    Triple.conseq (opening_triple ix db) (fun _ hs => hs) (fun _ _ hs => hs) hstart
  have hlogs : Triple (On fun ix' db' => ix' = ix ∧
      runAll (openingStatements header tokens) db = some db')
      (forEach (writeLog cfg o header) logs)
      (fun _ => On fun ix' db' => ∃ db₁, runAll (openingStatements header tokens) db = some db₁ ∧
        logs.foldlM (stepLog cfg header) (ix, db₁) = some (ix', db'))
      (On fun ix' _ => ∃ done, done <+: logs ∧ ix' = done.foldl (memoryLog cfg header) ix) := by
    rintro s ⟨hix, hrun⟩
    refine Triple.conseq (writeLogs_triple ix s.db logs) (fun _ hs => hs)
      (fun _ t ht => ⟨s.db, hrun, ht⟩) (fun _ hs => hs) s ⟨hix, rfl⟩
  have hclosing : Triple (On fun ix' db' => ∃ db₁,
      runAll (openingStatements header tokens) db = some db₁ ∧
        logs.foldlM (stepLog cfg header) (ix, db₁) = some (ix', db'))
      (writeSnapshots cfg o header logs >>= fun _ => setCursor cfg o number header)
      (fun _ => On fun ix' db' =>
        indexBlock cfg header number tokens logs (ix, db) = some (ix', db') ∧
          ix' = logs.foldl (memoryLog cfg header) ix)
      (On fun ix' _ => ∃ done, done <+: logs ∧ ix' = done.foldl (memoryLog cfg header) ix) := by
    rintro s ⟨db₁, hrun, hfold⟩
    have hmemory : s.ix = logs.foldl (memoryLog cfg header) ix := foldlM_memory hfold
    refine Triple.conseq (closing_triple s.ix s.db) (fun _ hs => hs) ?_ ?_ s
      ⟨rfl, rfl⟩
    · rintro - t ⟨ht, hclose⟩
      refine ⟨?_, ht.trans hmemory⟩
      simp only [indexBlock, hrun, hfold, hclose, Option.bind_eq_bind, Option.bind_some, ht]
      rfl
    · rintro t ht
      exact ⟨logs, List.prefix_rfl, Eq.trans ht hmemory⟩
  have hbody := Triple.bind hopening fun _ => Triple.bind hlogs fun _ => hclosing
  rw [bind_assoc] at hbody
  exact hbody

theorem commitBlock_triple (ix : Indexer) (db : Database) {number : Nat} {tokens : List Token}
    {logs : List Log} :
    Triple (On (At ix db)) (inBlockTx o (writeBlock cfg o header number tokens logs))
      (fun _ => On fun ix' db' => indexBlock cfg header number tokens logs (ix, db) = some (ix', db'))
      (On fun ix' db' =>
        db' = db ∧ (∃ done, done <+: logs ∧ ix' = done.foldl (memoryLog cfg header) ix) ∨
          indexBlock cfg header number tokens logs (ix, db) = some (ix', db')) := by
  refine inBlockTx_triple (fun before => ?_) (fun ix' db' hat => ?_) fun ix' db' h => Or.inr h
  · rintro s ⟨hat, hbefore⟩
    have hdb : before = db := hbefore.symm.trans hat.2
    refine Triple.conseq writeBlock_triple (fun _ hs => hs) (fun _ r hr => ?_) (fun r hr => ?_) s hat
    · exact ⟨hr.1, Or.inl ⟨hdb, logs, List.prefix_rfl, hr.2⟩⟩
    · exact Or.inl ⟨hdb, hr⟩
  · exact Or.inl ⟨hat.2, [], List.nil_prefix, hat.1⟩

/-- A block commits the function `indexBlock` of the header and the token
records it was given, or nothing; a lost commit looks like a failure. -/
theorem processBlock_triple (ix : Indexer) (db : Database) {number : Nat} {logs : List Log} :
    Triple (On (At ix db)) (processBlock cfg o number logs)
      (fun _ => On fun ix' db' => ∃ k header tokens, (o.chain k).headerAt number = some header ∧
        Fetched cfg o.abi (createdTokens logs) tokens ∧
        indexBlock cfg header number tokens logs (ix.loadTokens tokens, db) = some (ix', db'))
      (On fun ix' db' => At ix db ix' db' ∨ ∃ k header tokens,
        (o.chain k).headerAt number = some header ∧
        Fetched cfg o.abi (createdTokens logs) tokens ∧
        (db' = db ∧ Partial cfg header tokens logs ix ix' ∨
          indexBlock cfg header number tokens logs (ix.loadTokens tokens, db) =
            some (ix', db'))) := by
  refine Triple.bind (Triple.conseq headerByNumber_triple (fun _ hs => hs) (fun _ _ hs => hs)
    fun s hs => Or.inl hs) fun header => ?_
  refine Triple.bind (Q := fun tokens => On fun ix' db' => At (ix.loadTokens tokens) db ix' db' ∧
    Fetched cfg o.abi (createdTokens logs) tokens ∧ ∃ k, (o.chain k).headerAt number = some header)
    ?_ fun tokens => ?_
  · rintro s ⟨hat, hheader⟩
    obtain ⟨hok, herr⟩ := fetchTokens_triple ix db
      (createdTokens logs) [] [] ⟨by simp, by simp, List.Pairwise.nil⟩ s hat
    exact ⟨fun ts t ht => ⟨(hok ts t ht).1, (hok ts t ht).2, hheader⟩,
      fun e t ht => (herr e t ht).elim⟩
  · rintro s ⟨hat, hfetched, k, hheader⟩
    exact Triple.conseq (commitBlock_triple (ix.loadTokens tokens) db) (fun _ hs => hs)
      (fun _ t ht => ⟨k, header, tokens, hheader, hfetched, ht⟩)
      (fun t ht => Or.inr ⟨k, header, tokens, hheader, hfetched, ht⟩) s hat

end Indexer

end ArkSwap.GoInternal
