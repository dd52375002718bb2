import ArkSwap.IndexerTokens

/-! A block when no call fails: it is committed exactly when the schema accepts
each of its statements in turn. -/

namespace ArkSwap.GoInternal

open Prog

namespace Indexer

variable {cfg : Config} {o : Outside} {header : Block} {s : Sys} {number : Nat}
variable {tokens : List Token} {logs : List Log}

/-- The node and the database answer every call. -/
def Available (o : Outside) : Prop := ∀ k, o.error k = none

/-- The records made of the answers of a block's tokens. -/
def records (cfg : Config) (o : Outside) (logs : List Log) (s : Sys) : List Token :=
  match fetchTokens cfg o (createdTokens logs) [] s with
  | (.ok tokens, _) => tokens
  | (.error _, _) => []

theorem records_fetched (cfg : Config) (o : Outside) (logs : List Log) (s : Sys) :
    ∃ t, fetchTokens cfg o (createdTokens logs) [] s = (.ok (records cfg o logs s), t) ∧
      At (s.ix.loadTokens (records cfg o logs s)) s.db t.ix t.db ∧
      Fetched cfg o.abi (createdTokens logs) (records cfg o logs s) := by
  obtain ⟨hok, herr⟩ := @fetchTokens_triple cfg o s.ix s.db (createdTokens logs) [] []
    ⟨by simp, by simp, List.Pairwise.nil⟩ s ⟨rfl, rfl⟩
  rw [records]
  rcases hrun : fetchTokens cfg o (createdTokens logs) [] s with ⟨e | ts, t⟩
  · exact (herr e t hrun).elim
  · obtain ⟨hat, hfetched⟩ := hok ts t hrun
    exact ⟨t, rfl, hat, by rwa [List.nil_append] at hfetched⟩

section Calls

variable {R : Indexer → Database → Prop} (ho : Available o)

include ho

theorem returns_request {α : Type} {x : Ix α} {Q : α → Sys → Prop} :
    Returns (request o >>= fun _ => x) Q s ↔ Returns x Q { s with calls := s.calls + 1 } := by
  have hrun : request o s = (.ok s.calls, { s with calls := s.calls + 1 }) := by
    simp only [request, nextCall, Prog.get, Prog.modify, bind, pure, ho s.calls]
  rw [Returns, bind_of_ok _ hrun, ← Returns]

theorem returns_exec {statement : Statement} :
    Returns (exec o statement) (fun _ => On R) s ↔
      ∃ db, statement.run s.db = some db ∧ R s.ix db := by
  rw [exec, returns_request ho, Statement.run]
  by_cases ha : statement.allowed s.db = true
  · simp only [Returns, Prog.get, Prog.modify, bind, ha, if_true, On, Option.some.injEq,
      exists_eq_left']
  · simp only [Returns, Prog.get, Prog.fail, bind, ha, if_false, Bool.false_eq_true, reduceCtorEq,
      false_and, exists_false]

theorem returns_execAll {α : Type} {f : α → Statement} {as : List α} :
    Returns (forEach (fun a => exec o (f a)) as) (fun _ => On R) s ↔
      ∃ db, runAll (as.map f) s.db = some db ∧ R s.ix db := by
  induction as generalizing s with
  | nil => simp [forEach, Returns, pure_apply, runAll, On]
  | cons a as ih =>
    have hrest : Returns (forEach (fun a => exec o (f a)) (a :: as)) (fun _ => On R) s ↔
        Returns (exec o (f a))
          (fun _ => On fun ix db => ∃ db', runAll (as.map f) db = some db' ∧ R ix db') s := by
      rw [forEach, returns_bind]
      exact returns_congr fun _ t => ih
    rw [hrest, returns_exec ho, List.map_cons, runAll]
    constructor
    · rintro ⟨db, hrun, db', hall, hR⟩
      exact ⟨db', by rw [List.foldlM_cons, hrun]; exact hall, hR⟩
    · rintro ⟨db', hall, hR⟩
      rw [List.foldlM_cons] at hall
      obtain ⟨db, hrun, hall⟩ := Option.bind_eq_some_iff.mp hall
      exact ⟨db, hrun, db', hall, hR⟩

theorem returns_writeLog {l : Log} :
    Returns (writeLog cfg o header l) (fun _ => On R) s ↔
      ∃ r, stepLog cfg header (s.ix, s.db) l = some r ∧ R r.1 r.2 := by
  rw [writeLog, returns_bind, stepLog]
  rcases ha : applyLog cfg header s.ix l with _ | ⟨statement, ix⟩
  · simp [Returns, Prog.get, pure_apply, On, ha]
  · have hexec : Returns (exec o statement >>= fun _ => remember fun _ => ix) (fun _ => On R) s ↔
        Returns (exec o statement) (fun _ => On fun _ db => R ix db) s := by
      rw [returns_bind]
      exact returns_congr fun _ _ => Iff.rfl
    rw [returns_exec ho] at hexec
    simp only [Returns, Prog.get, ha] at hexec ⊢
    rw [hexec]
    simp only [Option.map_eq_some_iff]
    constructor
    · rintro ⟨db, hrun, hR⟩
      exact ⟨(ix, db), ⟨db, hrun, rfl⟩, hR⟩
    · rintro ⟨r, ⟨db, hrun, rfl⟩, hR⟩
      exact ⟨db, hrun, hR⟩

theorem returns_writeLogs :
    Returns (forEach (writeLog cfg o header) logs) (fun _ => On R) s ↔
      ∃ r, logs.foldlM (stepLog cfg header) (s.ix, s.db) = some r ∧ R r.1 r.2 := by
  induction logs generalizing s with
  | nil => simp [forEach, Returns, pure_apply, On]
  | cons l logs ih =>
    have hrest : Returns (forEach (writeLog cfg o header) (l :: logs)) (fun _ => On R) s ↔
        Returns (writeLog cfg o header l) (fun _ => On fun ix db =>
          ∃ r, logs.foldlM (stepLog cfg header) (ix, db) = some r ∧ R r.1 r.2) s := by
      rw [forEach, returns_bind]
      exact returns_congr fun _ t => ih
    rw [hrest, returns_writeLog ho]
    constructor
    · rintro ⟨r, hstep, r', hall, hR⟩
      exact ⟨r', by rw [List.foldlM_cons, hstep]; exact hall, hR⟩
    · rintro ⟨r', hall, hR⟩
      rw [List.foldlM_cons] at hall
      obtain ⟨r, hstep, hall⟩ := Option.bind_eq_some_iff.mp hall
      exact ⟨r, hstep, r', hall, hR⟩

theorem returns_writeBlock :
    Returns (writeBlock cfg o header number tokens logs) (fun _ => On R) s ↔
      ∃ r, indexBlock cfg header number tokens logs (s.ix, s.db) = some r ∧ R r.1 r.2 := by
  have hclose : ∀ t : Sys, Returns (writeSnapshots cfg o header logs >>= fun _ =>
      setCursor cfg o number header) (fun _ => On R) t ↔ ∃ db, runAll
        (snapshotStatements cfg header t.ix logs ++ [cursorAt cfg number header]) t.db = some db ∧
          R t.ix db := by
    intro t
    have hsnapshots : Returns (writeSnapshots cfg o header logs >>= fun _ =>
        setCursor cfg o number header) (fun _ => On R) t ↔
        Returns (forEach (fun snap => exec o (Database.upsertPairSnapshot snap))
          (snapshotPairs cfg header t.ix (syncedPairs logs)))
          (fun _ => On fun ix db => ∃ db', (cursorAt cfg number header).run db = some db' ∧
            R ix db') t := by
      rw [returns_bind]
      exact returns_congr fun _ r => returns_exec ho
    rw [hsnapshots, returns_execAll ho, ← snapshotStatements]
    constructor
    · rintro ⟨db, hrun, db', hcursor, hR⟩
      refine ⟨db', runAll_append hrun ?_, hR⟩
      rw [runAll, List.foldlM_cons, hcursor]
      rfl
    · rintro ⟨db', hrun, hR⟩
      obtain ⟨db, hfirst, hallowed, rfl⟩ := runAll_snoc_eq_some hrun
      exact ⟨db, hfirst, _, if_pos hallowed, hR⟩
  have hlogs : ∀ t : Sys, Returns (forEach (writeLog cfg o header) logs >>= fun _ =>
      writeSnapshots cfg o header logs >>= fun _ => setCursor cfg o number header) (fun _ => On R) t ↔
        ∃ r, logs.foldlM (stepLog cfg header) (t.ix, t.db) = some r ∧ ∃ db, runAll
          (snapshotStatements cfg header r.1 logs ++ [cursorAt cfg number header]) r.2 = some db ∧
            R r.1 db := by
    intro t
    rw [returns_bind]
    exact (returns_congr fun _ r => hclose r).trans (returns_writeLogs (R := fun ix db => ∃ db',
      runAll (snapshotStatements cfg header ix logs ++ [cursorAt cfg number header]) db = some db' ∧
        R ix db') ho)
  have htokens : ∀ t : Sys, Returns (forEach (fun t => exec o (Database.upsertToken t)) tokens >>=
      fun _ => forEach (writeLog cfg o header) logs >>= fun _ => writeSnapshots cfg o header logs >>=
        fun _ => setCursor cfg o number header) (fun _ => On R) t ↔
      ∃ db, runAll (tokens.map Database.upsertToken) t.db = some db ∧
        ∃ r, logs.foldlM (stepLog cfg header) (t.ix, db) = some r ∧ ∃ db', runAll
          (snapshotStatements cfg header r.1 logs ++ [cursorAt cfg number header]) r.2 = some db' ∧
            R r.1 db' := by
    intro t
    rw [returns_bind]
    exact (returns_congr fun _ r => hlogs r).trans (returns_execAll (R := fun ix db => ∃ r,
      logs.foldlM (stepLog cfg header) (ix, db) = some r ∧ ∃ db', runAll
        (snapshotStatements cfg header r.1 logs ++ [cursorAt cfg number header]) r.2 = some db' ∧
          R r.1 db') ho)
  rw [writeBlock, returns_bind]
  refine ((returns_congr fun _ r => htokens r).trans (returns_exec (R := fun ix db => ∃ db₁,
    runAll (tokens.map Database.upsertToken) db = some db₁ ∧ ∃ r,
      logs.foldlM (stepLog cfg header) (ix, db₁) = some r ∧ ∃ db', runAll
        (snapshotStatements cfg header r.1 logs ++ [cursorAt cfg number header]) r.2 = some db' ∧
          R r.1 db') ho)).trans ?_
  simp only [indexBlock, openingStatements, runAll, List.foldlM_cons, Option.bind_eq_bind,
    Option.bind_eq_some_iff, Option.pure_def, Option.some.injEq]
  constructor
  · rintro ⟨db, hblock, db₁, htokens, r, hfold, db₂, hclose, hR⟩
    exact ⟨(r.1, db₂), ⟨db₁, ⟨db, hblock, htokens⟩, r, hfold, db₂, hclose, rfl⟩, hR⟩
  · rintro ⟨_, ⟨db₁, ⟨db, hblock, htokens⟩, r, hfold, db₂, hclose, rfl⟩, hR⟩
    exact ⟨db, hblock, db₁, htokens, r, hfold, db₂, hclose, hR⟩

/-- A block that nothing disturbs is committed exactly when the schema accepts all
that is written of it. -/
theorem returns_processBlock (hheader : ∀ k, (o.chain k).headerAt number = some header) :
    (∃ t, processBlock cfg o number logs s = (.ok (), t)) ↔
      ∃ r, indexBlock cfg header number (records cfg o logs { s with calls := s.calls + 1 }) logs
        (s.ix.loadTokens (records cfg o logs { s with calls := s.calls + 1 }), s.db) = some r := by
  have hfirst : headerByNumber o number s = (.ok header, { s with calls := s.calls + 1 }) := by
    simp only [headerByNumber, request, nextCall, Prog.get, Prog.modify, bind, pure, ho s.calls,
      orFail, hheader]
  obtain ⟨t, hfetch, hat, -⟩ := records_fetched cfg o logs { s with calls := s.calls + 1 }
  have hblock : processBlock cfg o number logs s = inBlockTx o (writeBlock cfg o header number
      (records cfg o logs { s with calls := s.calls + 1 }) logs) t := by
    rw [processBlock, bind_of_ok _ hfirst, bind_of_ok _ hfetch]
  have hreturns : (∃ r, processBlock cfg o number logs s = (.ok (), r)) ↔
      Returns (inBlockTx o (writeBlock cfg o header number
        (records cfg o logs { s with calls := s.calls + 1 }) logs)) (fun _ _ => True) t := by
    rw [hblock, returns_iff]
    constructor
    · rintro ⟨r, hr⟩
      exact ⟨(), r, hr, True.intro⟩
    · rintro ⟨_, r, hr, _⟩
      exact ⟨r, hr⟩
  have hcommit : ∀ r : Sys, Returns (commit o t.db) (fun _ _ => True) r ↔ True := by
    intro r
    rw [Returns, show commit o t.db r = (.ok (), { r with calls := r.calls + 1 }) by
      simp only [commit, nextCall, Prog.get, Prog.modify, bind, pure, ho r.calls]]
  have hbody : Returns (inBlockTx o (writeBlock cfg o header number
      (records cfg o logs { s with calls := s.calls + 1 }) logs)) (fun _ _ => True) t ↔
      Returns (writeBlock cfg o header number (records cfg o logs { s with calls := s.calls + 1 }) logs)
        (fun _ => On fun _ _ => True) { t with calls := t.calls + 1 } := by
    rw [inBlockTx, returns_request ho]
    change Returns (onFailure _ _ >>= fun _ => commit o t.db) (fun _ _ => True) _ ↔ _
    rw [returns_bind, returns_onFailure]
    exact returns_congr fun _ r => hcommit r
  rw [hreturns, hbody, returns_writeBlock ho]
  simp only [hat.1, hat.2, and_true]

end Calls

end Indexer

end ArkSwap.GoInternal
