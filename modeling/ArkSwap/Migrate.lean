import ArkSwap.Lib.Run
import ArkSwap.Lib.Session

/-! The migrations of the store. Each file is sent in a transaction of its own,
and opens and commits one itself: the two do not nest. -/

namespace ArkSwap.GoInternal

inductive Migration where
  | init
  | indexes
  deriving DecidableEq

/-- A table or an index, created unless it exists, and the tables it is over. -/
structure Create where
  name : String
  needs : List String

namespace Migration

def name : Migration → String
  | init => "0001_init.up.sql"
  | indexes => "0002_indexes.up.sql"

def creates : Migration → List Create
  | init =>
      [⟨"indexer_state", []⟩, ⟨"blocks", []⟩, ⟨"tokens", []⟩, ⟨"pairs", ["tokens"]⟩,
       ⟨"swaps", ["pairs"]⟩, ⟨"liquidity_events", ["pairs"]⟩, ⟨"pair_snapshots", ["pairs"]⟩,
       ⟨"token_prices", ["tokens"]⟩]
  | indexes =>
      [⟨"swaps_pair_timestamp_idx", ["swaps"]⟩, ⟨"swaps_timestamp_idx", ["swaps"]⟩,
       ⟨"swaps_block_number_idx", ["swaps"]⟩, ⟨"swaps_sender_idx", ["swaps"]⟩,
       ⟨"swaps_recipient_idx", ["swaps"]⟩, ⟨"swaps_token_in_idx", ["swaps"]⟩,
       ⟨"swaps_token_out_idx", ["swaps"]⟩,
       ⟨"liquidity_events_pair_timestamp_idx", ["liquidity_events"]⟩,
       ⟨"liquidity_events_block_number_idx", ["liquidity_events"]⟩,
       ⟨"pair_snapshots_lookup_idx", ["pair_snapshots"]⟩,
       ⟨"pair_snapshots_block_idx", ["pair_snapshots"]⟩, ⟨"pairs_token0_idx", ["pairs"]⟩,
       ⟨"pairs_token1_idx", ["pairs"]⟩, ⟨"pairs_created_block_idx", ["pairs"]⟩,
       ⟨"tokens_symbol_idx", ["tokens"]⟩, ⟨"token_prices_latest_idx", ["token_prices"]⟩]

end Migration

/-- What there is, and the rows of `schema_migrations` once that table is there. -/
structure Schema where
  objects : List String
  schemaMigrations : Option (List Migration)

namespace Schema

def empty : Schema := ⟨[], none⟩

def versions (db : Schema) : List Migration := db.schemaMigrations.getD []

def add (db : Schema) (name : String) : Schema :=
  if name ∈ db.objects then db else { db with objects := db.objects ++ [name] }

def createIfNotExists (c : Create) (db : Schema) : Option Schema :=
  if c.name ∈ db.objects then some db
  else if c.needs.all fun table => table ∈ db.objects then some (db.add c.name)
  else none

def createSchemaMigrations (db : Schema) : Option Schema :=
  some { db with schemaMigrations := some db.versions }

/-- `version` is the primary key. -/
def recordVersion (m : Migration) (db : Schema) : Option Schema :=
  match db.schemaMigrations with
  | none => none
  | some rows =>
      if m ∈ rows then none else some { db with schemaMigrations := some (rows ++ [m]) }

end Schema

/-- The statements of a file, between its own `BEGIN` and `COMMIT`. -/
def Migration.body (m : Migration) : List (Command Schema) :=
  .begin :: (m.creates.map fun c => .apply (Schema.createIfNotExists c)) ++ [.commit]

/-- The calls of a run, in the statements of a file one by one. -/
inductive Point where
  | createSchemaMigrations
  | check (m : Migration)
  | txBegin (m : Migration)
  | statement (m : Migration) (k : Nat)
  | record (m : Migration)
  | txCommit (m : Migration)
  deriving DecidableEq

/-- Where a run fails, and how; it does not when the outcome is an answer. -/
structure Fault where
  point : Point
  outcome : Outcome
  deriving DecidableEq

def Fault.outcomeAt (fault : Fault) (p : Point) : Outcome :=
  if fault.point = p then fault.outcome else .answered

/-- An error is the text it is wrapped in, if it is wrapped. -/
abbrev Migrating := Prog (Option String) (Session Schema)

def checkExists (fault : Fault) (m : Migration) : Migrating Bool := fun s =>
  match fault.outcomeAt (.check m), s.committed.schemaMigrations with
  | .answered, some rows => (.ok (m ∈ rows), s)
  | _, _ => (.error (some ("database: checking migration " ++ m.name)), s)

/-- Statements of a file, of which the first has the place `k`. -/
def execStatements (fault : Fault) (m : Migration) (k : Nat) (cs : List (Command Schema)) :
    Migrating Unit :=
  Prog.forEach (fun c => Session.send c.1 (fault.outcomeAt (.statement m c.2))
    (some ("database: applying " ++ m.name))) (cs.zipIdx k)

def recordApplied (fault : Fault) (m : Migration) : Migrating Unit :=
  Session.send (.apply (Schema.recordVersion m)) (fault.outcomeAt (.record m))
    (some ("database: recording " ++ m.name))

def applyFile (fault : Fault) (m : Migration) : Migrating Unit := do
  Session.send .begin (fault.outcomeAt (.txBegin m)) none
  Prog.onFailure
    (do
      execStatements fault m 0 m.body
      recordApplied fault m)
    fun s => (s.exec .rollback).getD s
  Session.send .commit (fault.outcomeAt (.txCommit m)) (some ("database: committing " ++ m.name))

def migrateFile (fault : Fault) (m : Migration) : Migrating Unit := do
  if ← checkExists fault m then pure () else applyFile fault m

def migrate (fault : Fault) : Migrating Unit := do
  Session.send (.apply Schema.createSchemaMigrations) (fault.outcomeAt .createSchemaMigrations)
    (some "database: creating schema_migrations")
  Prog.forEach (migrateFile fault) [.init, .indexes]

/-- What a run leaves. -/
def migrated (db : Schema) (fault : Fault) : Schema := (migrate fault ⟨db, .idle⟩).2.committed

def Migration.AllOrNothing (m : Migration) (db : Schema) : Prop :=
  (∀ c ∈ m.creates, c.name ∈ db.objects) ∧ m ∈ db.versions ∨
    (∀ c ∈ m.creates, c.name ∉ db.objects) ∧ m ∉ db.versions

/-- The file that a call is made for. -/
def Point.file : Point → Option Migration
  | createSchemaMigrations => none
  | check m => some m
  | txBegin m => some m
  | statement m _ => some m
  | record m => some m
  | txCommit m => some m

/-- The place of a file's own `COMMIT`. -/
def Migration.commitAt (m : Migration) : Nat := m.creates.length + 1

/-- The file's own `COMMIT` takes effect, and the row that records the file is not
written: the answer to the one is lost, or the other fails. -/
def Severs (fault : Fault) (m : Migration) : Prop :=
  fault = ⟨.statement m m.commitAt, .unanswered⟩ ∨
    fault = ⟨.record m, .refused⟩ ∨ fault = ⟨.record m, .lost⟩

/-- No file that is still to be applied is cut off from its record. -/
def Harmless (db : Schema) (fault : Fault) : Prop := ∀ m, m ∉ db.versions → ¬Severs fault m

section Files

variable {db d : Schema} {m : Migration} {fault : Fault} {c : Create} {cs : List Create}
  {objects objects' : List String} {k : Nat}

theorem Schema.mem_add {o name : String} :
    o ∈ (db.add name).objects ↔ o ∈ db.objects ∨ o = name := by
  unfold add
  split
  · rename_i hname
    constructor
    · exact Or.inl
    · rintro (ho | rfl)
      · exact ho
      · exact hname
  · simp

@[simp] theorem Schema.add_schemaMigrations (name : String) :
    (db.add name).schemaMigrations = db.schemaMigrations := by
  unfold add
  split <;> rfl

/-- The schema with all of a list created. -/
def Schema.addAll (db : Schema) (cs : List Create) : Schema := cs.foldl (fun d c => d.add c.name) db

@[simp] theorem Schema.addAll_schemaMigrations (db : Schema) (cs : List Create) :
    (db.addAll cs).schemaMigrations = db.schemaMigrations := by
  induction cs generalizing db with
  | nil => rfl
  | cons c cs ih =>
    rw [addAll, List.foldl_cons, ← addAll, ih, add_schemaMigrations]

theorem Schema.mem_addAll {o : String} :
    o ∈ (db.addAll cs).objects ↔ o ∈ db.objects ∨ ∃ c ∈ cs, o = c.name := by
  induction cs generalizing db with
  | nil => simp [addAll]
  | cons c cs ih =>
    rw [addAll, List.foldl_cons, ← addAll, ih, mem_add]
    simp [or_assoc]

/-- Each is created over what is there or was created before it. -/
def Buildable : List String → List Create → Prop
  | _, [] => True
  | objects, c :: cs => (∀ o ∈ c.needs, o ∈ objects) ∧ Buildable (c.name :: objects) cs

instance Buildable.decidable : ∀ objects cs, Decidable (Buildable objects cs)
  | _, [] => .isTrue True.intro
  | objects, c :: cs =>
      @instDecidableAnd _ _ _ (Buildable.decidable (c.name :: objects) cs)

theorem Buildable.mono (h : Buildable objects cs) (hle : ∀ o ∈ objects, o ∈ objects') :
    Buildable objects' cs := by
  induction cs generalizing objects objects' with
  | nil => trivial
  | cons c cs ih =>
    refine ⟨fun o ho => hle o (h.1 o ho), ih h.2 fun o ho => ?_⟩
    rcases List.mem_cons.mp ho with rfl | ho
    · exact List.mem_cons_self
    · exact List.mem_cons_of_mem _ (hle o ho)

theorem createIfNotExists_eq (h : ∀ o ∈ c.needs, o ∈ db.objects) :
    Schema.createIfNotExists c db = some (db.add c.name) := by
  unfold Schema.createIfNotExists
  split
  · rename_i hname
    rw [Schema.add, if_pos hname]
  · rw [if_pos (List.all_eq_true.mpr fun o ho => decide_eq_true (h o ho))]

theorem outcomeAt_ne {p : Point} (h : fault.outcomeAt p ≠ .answered) : fault.point = p := by
  by_contra hne
  exact h (if_neg hne)

/-- The statements in the transaction of a file are all made, or one of them fails
and nothing is committed. -/
theorem creates_run (fault : Fault) (m : Migration) (db : Schema) (hbuild : Buildable d.objects cs) (k : Nat) :
    execStatements fault m k (cs.map fun c => .apply (Schema.createIfNotExists c)) ⟨db, .active d⟩ =
        (.ok (), ⟨db, .active (d.addAll cs)⟩) ∨
      ∃ e s, execStatements fault m k (cs.map fun c => .apply (Schema.createIfNotExists c))
          ⟨db, .active d⟩ = (.error e, s) ∧ s.committed = db ∧
        ∃ j, j < k + cs.length ∧ fault.point = .statement m j := by
  induction cs generalizing d k with
  | nil => exact Or.inl rfl
  | cons c cs ih =>
    rw [execStatements, List.map_cons, List.zipIdx_cons, Prog.forEach]
    have hnext : Buildable (d.add c.name).objects cs := by
      refine hbuild.2.mono fun o ho => Schema.mem_add.mpr ?_
      rcases List.mem_cons.mp ho with rfl | ho
      · exact Or.inr rfl
      · exact Or.inl ho
    have hexec := Session.exec_apply_active (d := db) (createIfNotExists_eq hbuild.1)
    rcases Session.send_keeps (o := fault.outcomeAt (.statement m k))
      (e := some ("database: applying " ++ m.name)) hexec rfl with
      ⟨-, hsend⟩ | ⟨hfault, s, hsend, hs⟩
    · rw [Prog.bind_of_ok _ hsend]
      rcases ih hnext (k + 1) with hok | ⟨e, s, herr, hs, j, hlt, hpoint⟩
      · exact Or.inl hok
      · refine Or.inr ⟨e, s, herr, hs, j, ?_, hpoint⟩
        rw [List.length_cons]
        omega
    · rw [Prog.bind_of_error _ hsend]
      exact Or.inr ⟨_, s, rfl, hs, k, by simp, outcomeAt_ne hfault⟩

theorem execStatements_append (k : Nat) (cs cs' : List (Command Schema)) :
    execStatements fault m k (cs ++ cs') =
      (execStatements fault m k cs >>= fun _ => execStatements fault m (k + cs.length) cs') := by
  rw [execStatements, List.zipIdx_append, Prog.forEach_append]
  rfl

theorem execStatements_cons (k : Nat) (c : Command Schema) (cs : List (Command Schema)) :
    execStatements fault m k (c :: cs) =
      (Session.send c (fault.outcomeAt (.statement m k)) (some ("database: applying " ++ m.name))
        >>= fun _ => execStatements fault m (k + 1) cs) :=
  rfl

theorem opened_run (fault : Fault) (hbuild : Buildable db.objects m.creates) :
    execStatements fault m 0 (.begin :: m.creates.map fun c => .apply (Schema.createIfNotExists c))
        ⟨db, .active db⟩ = (.ok (), ⟨db, .active (db.addAll m.creates)⟩) ∨
      ∃ e s, execStatements fault m 0
          (.begin :: m.creates.map fun c => .apply (Schema.createIfNotExists c)) ⟨db, .active db⟩ =
          (.error e, s) ∧ s.committed = db ∧ ∃ k, k < m.commitAt ∧ fault.point = .statement m k := by
  rw [execStatements_cons]
  rcases Session.send_keeps (o := fault.outcomeAt (.statement m 0))
    (e := some ("database: applying " ++ m.name))
    (Session.exec_begin_active db db) rfl with ⟨-, hsend⟩ | ⟨hfault, s, hsend, hs⟩
  · rw [Prog.bind_of_ok _ hsend]
    rcases creates_run fault m db hbuild 1 with
      hok | ⟨e, s, herr, hs, k, hk, hpoint⟩
    · exact Or.inl hok
    · refine Or.inr ⟨e, s, herr, hs, k, ?_, hpoint⟩
      rw [Migration.commitAt]
      omega
  · rw [Prog.bind_of_error _ hsend]
    exact Or.inr ⟨_, s, rfl, hs, 0, Nat.succ_pos _, outcomeAt_ne hfault⟩

/-- A file commits itself in the middle of the transaction that it is sent in. -/
theorem body_run (fault : Fault) (hbuild : Buildable db.objects m.creates) :
    execStatements fault m 0 m.body ⟨db, .active db⟩ = (.ok (), ⟨db.addAll m.creates, .idle⟩) ∧
        fault.outcomeAt (.statement m m.commitAt) = .answered ∨
      ∃ e s, execStatements fault m 0 m.body ⟨db, .active db⟩ = (.error e, s) ∧
        (∃ k, fault.point = .statement m k) ∧
        (s.committed = db ∧ fault ≠ ⟨.statement m m.commitAt, .unanswered⟩ ∨
          s.committed = db.addAll m.creates ∧ fault = ⟨.statement m m.commitAt, .unanswered⟩) := by
  rw [Migration.body, execStatements_append]
  rcases opened_run fault hbuild with hok | ⟨e, s, herr, hs, k, hk, hpoint⟩
  · rw [Prog.bind_of_ok _ hok, execStatements_cons]
    have hplace : 0 + (Command.begin :: m.creates.map fun c =>
        Command.apply (Schema.createIfNotExists c)).length = m.commitAt := by
      simp [Migration.commitAt]
    rw [hplace]
    rcases Session.send_cases (o := fault.outcomeAt (.statement m m.commitAt))
      (e := some ("database: applying " ++ m.name))
      (Session.exec_commit_active db (db.addAll m.creates)) with
      ⟨hfault, hsend⟩ | ⟨s, hsend, hs⟩
    · rw [Prog.bind_of_ok _ hsend]
      exact Or.inl ⟨rfl, hfault⟩
    · rw [Prog.bind_of_error _ hsend]
      have hfault : fault.outcomeAt (.statement m m.commitAt) ≠ .answered := by
        rcases hs with ⟨h, -⟩ | ⟨h | h, -⟩ <;> rw [h] <;> decide
      have hpoint := outcomeAt_ne hfault
      rw [Fault.outcomeAt, if_pos hpoint] at hs
      refine Or.inr ⟨_, s, rfl, ⟨_, hpoint⟩, ?_⟩
      rcases hs with ⟨houtcome, hs⟩ | ⟨houtcome, hs⟩
      · refine Or.inr ⟨hs, ?_⟩
        rw [← hpoint, ← houtcome]
      · refine Or.inl ⟨hs, fun h => ?_⟩
        rw [h] at houtcome
        rcases houtcome with h | h <;> cases h
  · rw [Prog.bind_of_error _ herr]
    refine Or.inr ⟨e, s, rfl, ⟨k, hpoint⟩, Or.inl ⟨hs, fun hfault => ?_⟩⟩
    rw [hfault] at hpoint
    exact Nat.ne_of_gt hk (Point.statement.inj hpoint).2

/-- The schema with a file applied and recorded. -/
def Schema.applied (db : Schema) (m : Migration) : Schema :=
  { db.addAll m.creates with schemaMigrations := some (db.versions ++ [m]) }

theorem recordVersion_eq (hrows : db.schemaMigrations.isSome = true) (hpending : m ∉ db.versions) :
    Schema.recordVersion m (db.addAll m.creates) = some (db.applied m) := by
  obtain ⟨rows, hrows⟩ := Option.isSome_iff_exists.mp hrows
  have hversions : db.versions = rows := by rw [Schema.versions, hrows]; rfl
  rw [hversions] at hpending
  rw [Schema.recordVersion, Schema.addAll_schemaMigrations, hrows]
  dsimp only
  rw [if_neg hpending, Schema.applied, hversions]

theorem Severs.file (h : Severs fault m) : fault.point.file = some m := by
  rcases h with rfl | rfl | rfl <;> rfl

@[simp] theorem outcomeAt_self (p : Point) (o : Outcome) : Fault.outcomeAt ⟨p, o⟩ p = o := if_pos rfl

/-- A pending file is applied and recorded; or its run fails with both or neither
done; or it is severed. -/
theorem recorded_run (fault : Fault) (hrows : db.schemaMigrations.isSome = true) (hpending : m ∉ db.versions)
    (hbuild : Buildable db.objects m.creates) :
    (execStatements fault m 0 m.body >>= fun _ => recordApplied fault m) ⟨db, .active db⟩ =
        (.ok (), ⟨db.applied m, .idle⟩) ∧ ¬Severs fault m ∨
      ∃ e s, (execStatements fault m 0 m.body >>= fun _ => recordApplied fault m) ⟨db, .active db⟩ =
          (.error e, s) ∧ fault.point.file = some m ∧
        ((s.committed = db.applied m ∨ s.committed = db) ∧ ¬Severs fault m ∨
          s.committed = db.addAll m.creates ∧ Severs fault m) := by
  rcases body_run fault hbuild with ⟨hbody, hcommit⟩ | ⟨e, s, hbody, ⟨k, hpoint⟩, hs⟩
  · rw [Prog.bind_of_ok _ hbody, recordApplied]
    rcases Session.send_cases (o := fault.outcomeAt (.record m))
      (e := some ("database: recording " ++ m.name))
      (Session.exec_apply_idle (recordVersion_eq hrows hpending)) with
      ⟨hrecord, hsend⟩ | ⟨s, hsend, hs⟩
    · refine Or.inl ⟨hsend, ?_⟩
      rintro (rfl | rfl | rfl)
      · rw [outcomeAt_self] at hcommit
        cases hcommit
      · rw [outcomeAt_self] at hrecord
        cases hrecord
      · rw [outcomeAt_self] at hrecord
        cases hrecord
    · have hpoint : fault.point = .record m := by
        refine outcomeAt_ne ?_
        rcases hs with ⟨h, -⟩ | ⟨h | h, -⟩ <;> rw [h] <;> decide
      rw [Fault.outcomeAt, if_pos hpoint] at hs
      refine Or.inr ⟨_, s, hsend, by rw [hpoint]; rfl, ?_⟩
      rcases hs with ⟨houtcome, hs⟩ | ⟨houtcome, hs⟩
      · refine Or.inl ⟨Or.inl hs, ?_⟩
        rintro (rfl | rfl | rfl)
        · cases hpoint
        · cases houtcome
        · cases houtcome
      · refine Or.inr ⟨hs, Or.inr ?_⟩
        rw [← hpoint]
        exact houtcome.imp (fun h => by rw [← h]) fun h => by rw [← h]
  · rw [Prog.bind_of_error _ hbody]
    refine Or.inr ⟨e, s, rfl, by rw [hpoint]; rfl, ?_⟩
    rcases hs with ⟨hs, hfault⟩ | ⟨hs, hfault⟩
    · refine Or.inl ⟨Or.inr hs, ?_⟩
      rintro (rfl | rfl | rfl)
      · exact hfault rfl
      · cases hpoint
      · cases hpoint
    · exact Or.inr ⟨hs, Or.inl hfault⟩

theorem applyFile_run (fault : Fault) (hrows : db.schemaMigrations.isSome = true) (hpending : m ∉ db.versions)
    (hbuild : Buildable db.objects m.creates) :
    applyFile fault m ⟨db, .idle⟩ = (.ok (), ⟨db.applied m, .idle⟩) ∧ ¬Severs fault m ∨
      ∃ e s, applyFile fault m ⟨db, .idle⟩ = (.error e, s) ∧ fault.point.file = some m ∧
        ((s.committed = db.applied m ∨ s.committed = db) ∧ ¬Severs fault m ∨
          s.committed = db.addAll m.creates ∧ Severs fault m) := by
  unfold applyFile
  rcases Session.send_keeps (o := fault.outcomeAt (.txBegin m)) (e := (none : Option String))
    (Session.exec_begin_idle (d := db)) rfl with ⟨-, hbegin⟩ | ⟨hfault, s, hbegin, hs⟩
  · rw [Prog.bind_of_ok _ hbegin]
    rcases recorded_run fault hrows hpending hbuild with
      ⟨hrun, hsevers⟩ | ⟨e, s, hrun, hfile, hs⟩
    · rw [Prog.bind_of_ok _ (Prog.onFailure_of_ok _ hrun)]
      rcases Session.send_keeps (o := fault.outcomeAt (.txCommit m))
        (e := some ("database: committing " ++ m.name))
        (Session.exec_commit_idle (d := db.applied m)) rfl with ⟨-, hsend⟩ | ⟨hfault, s, hsend, hs⟩
      · exact Or.inl ⟨hsend, hsevers⟩
      · exact Or.inr ⟨_, s, hsend, by rw [outcomeAt_ne hfault]; rfl, Or.inl ⟨Or.inl hs, hsevers⟩⟩
    · rw [Prog.bind_of_error _ (Prog.onFailure_of_error _ hrun)]
      exact Or.inr ⟨e, _, rfl, hfile, hs⟩
  · rw [Prog.bind_of_error _ hbegin]
    have hpoint := outcomeAt_ne hfault
    refine Or.inr ⟨_, s, rfl, by rw [hpoint]; rfl, Or.inl ⟨Or.inr hs, ?_⟩⟩
    rintro (rfl | rfl | rfl) <;> cases hpoint

theorem creates_disjoint {m' : Migration} (hne : m' ≠ m) : ∀ c ∈ m.creates, ∀ c' ∈ m'.creates,
    c'.name ≠ c.name := by
  cases m with
  | init =>
    cases m' with
    | init => exact (hne rfl).elim
    | indexes => decide
  | indexes =>
    cases m' with
    | init => decide
    | indexes => exact (hne rfl).elim

/-- What one file creates is nothing to another. -/
theorem mem_addAll_of_ne {m' : Migration} (hne : m' ≠ m) {c' : Create} (hc' : c' ∈ m'.creates) :
    c'.name ∈ (db.addAll m.creates).objects ↔ c'.name ∈ db.objects := by
  rw [Schema.mem_addAll]
  constructor
  · rintro (h | ⟨c, hc, hname⟩)
    · exact h
    · exact (creates_disjoint hne c hc c' hc' hname).elim
  · exact Or.inl

theorem allOrNothing_applied (h : ∀ m, Migration.AllOrNothing m db) (m m' : Migration) :
    m'.AllOrNothing (db.applied m) := by
  have hversions : (db.applied m).versions = db.versions ++ [m] := rfl
  by_cases hne : m' = m
  · subst hne
    refine Or.inl ⟨fun c hc => Schema.mem_addAll.mpr (Or.inr ⟨c, hc, rfl⟩), ?_⟩
    rw [hversions]
    simp
  · rcases h m' with ⟨hall, hrow⟩ | ⟨hnone, hrow⟩
    · refine Or.inl ⟨fun c hc => (mem_addAll_of_ne hne hc).mpr (hall c hc), ?_⟩
      rw [hversions]
      exact List.mem_append_left _ hrow
    · refine Or.inr ⟨fun c hc hmem => hnone c hc ((mem_addAll_of_ne hne hc).mp hmem), ?_⟩
      rw [hversions]
      simp [hrow, hne]

theorem not_allOrNothing_severed (hpending : m ∉ db.versions) :
    ¬m.AllOrNothing (db.addAll m.creates) := by
  have hversions : (db.addAll m.creates).versions = db.versions := by
    rw [Schema.versions, Schema.addAll_schemaMigrations, ← Schema.versions]
  obtain ⟨c, hc⟩ : ∃ c, c ∈ m.creates := by
    cases m with
    | init => exact ⟨_, List.mem_cons_self⟩
    | indexes => exact ⟨_, List.mem_cons_self⟩
  rintro (⟨-, hrow⟩ | ⟨hnone, -⟩)
  · rw [hversions] at hrow
    exact hpending hrow
  · exact hnone c hc (Schema.mem_addAll.mpr (Or.inr ⟨c, hc, rfl⟩))

/-- One file of a run, from a schema without halves: the run goes on from another
such schema, or it ends, and only a severed file is left half done. -/
theorem migrateFile_run (fault : Fault) (h : ∀ m, Migration.AllOrNothing m db)
    (hrows : db.schemaMigrations.isSome = true)
    (hbuild : m ∉ db.versions → Buildable db.objects m.creates) :
    (∃ db', migrateFile fault m ⟨db, .idle⟩ = (.ok (), ⟨db', .idle⟩) ∧
        (∀ m, Migration.AllOrNothing m db') ∧ db'.schemaMigrations.isSome = true ∧
        (∀ m', m' ∈ db'.versions ↔ m' ∈ db.versions ∨ m' = m) ∧
        (m ∉ db.versions → ¬Severs fault m)) ∨
      ∃ e s, migrateFile fault m ⟨db, .idle⟩ = (.error e, s) ∧ fault.point.file = some m ∧
        ((∀ m, Migration.AllOrNothing m s.committed) ↔ (m ∉ db.versions → ¬Severs fault m)) := by
  obtain ⟨rows, hsome⟩ := Option.isSome_iff_exists.mp hrows
  have hversions : db.versions = rows := by rw [Schema.versions, hsome]; rfl
  unfold migrateFile
  by_cases hcheck : fault.outcomeAt (.check m) = .answered
  · have hexists : checkExists fault m ⟨db, .idle⟩ = (.ok (decide (m ∈ db.versions)), ⟨db, .idle⟩) := by
      rw [checkExists, hcheck, hsome, hversions]
    rw [Prog.bind_of_ok _ hexists]
    by_cases hpending : m ∈ db.versions
    · rw [decide_eq_true hpending]
      refine Or.inl ⟨db, rfl, h, hrows, fun m' => ?_, fun hnot => (hnot hpending).elim⟩
      constructor
      · exact Or.inl
      · rintro (hm' | rfl)
        · exact hm'
        · exact hpending
    · rw [decide_eq_false hpending]
      rcases applyFile_run fault hrows hpending (hbuild hpending) with
        ⟨hrun, hsevers⟩ | ⟨e, s, hrun, hfile, hs⟩
      · refine Or.inl ⟨db.applied m, hrun, allOrNothing_applied h m, rfl, fun m' => ?_,
          fun _ => hsevers⟩
        rw [show (db.applied m).versions = db.versions ++ [m] from rfl]
        simp
      · refine Or.inr ⟨e, s, hrun, hfile, ?_⟩
        rcases hs with ⟨hs | hs, hsevers⟩ | ⟨hs, hsevers⟩
        · rw [hs]
          exact ⟨fun _ _ => hsevers, fun _ => allOrNothing_applied h m⟩
        · rw [hs]
          exact ⟨fun _ _ => hsevers, fun _ => h⟩
        · rw [hs]
          exact ⟨fun hgood => (not_allOrNothing_severed hpending (hgood m)).elim,
            fun hharmless => (hharmless hpending hsevers).elim⟩
  · have hpoint := outcomeAt_ne hcheck
    have herror : ∃ e, checkExists fault m ⟨db, .idle⟩ = (.error e, ⟨db, .idle⟩) := by
      unfold checkExists
      split
      · rename_i hanswered _
        exact (hcheck hanswered).elim
      · exact ⟨_, rfl⟩
    obtain ⟨e, herror⟩ := herror
    rw [Prog.bind_of_error _ herror]
    refine Or.inr ⟨e, _, rfl, by rw [hpoint]; rfl, fun _ _ => ?_, fun _ => h⟩
    rintro (rfl | rfl | rfl) <;> cases hpoint

theorem buildable_init : Buildable db.objects Migration.init.creates :=
  have hbuild : Buildable [] Migration.init.creates := by decide
  hbuild.mono fun o ho => (List.not_mem_nil ho).elim

theorem buildable_indexes (h : ∀ m, Migration.AllOrNothing m db) (hinit : .init ∈ db.versions) :
    Buildable db.objects Migration.indexes.creates := by
  have hbuild : Buildable (Migration.init.creates.map Create.name) Migration.indexes.creates := by
    decide
  refine hbuild.mono fun o ho => ?_
  obtain ⟨c, hc, rfl⟩ := List.mem_map.mp ho
  rcases h .init with ⟨hall, -⟩ | ⟨-, hrow⟩
  · exact hall c hc
  · exact (hrow hinit).elim

theorem Severs.unique {m' : Migration} (hfile : fault.point.file = some m) (h : Severs fault m') :
    m' = m :=
  Option.some.inj (h.file.symm.trans hfile)

theorem files_run (h : ∀ m, Migration.AllOrNothing m db) (hrows : db.schemaMigrations.isSome = true) :
    (∀ m, Migration.AllOrNothing m
      (Prog.forEach (migrateFile fault) [.init, .indexes] ⟨db, .idle⟩).2.committed) ↔
      Harmless db fault := by
  rw [Prog.forEach, Prog.forEach]
  rcases migrateFile_run fault h hrows fun _ => buildable_init with
    ⟨db', hrun, hgood, hrows', hversions, hinit⟩ | ⟨e, s, hrun, hfile, hs⟩
  · rw [Prog.bind_of_ok _ hrun]
    have hpending : .indexes ∉ db'.versions ↔ .indexes ∉ db.versions := by
      rw [hversions]
      simp
    have hbuild := buildable_indexes hgood ((hversions .init).mpr (Or.inr rfl))
    rcases migrateFile_run fault hgood hrows' fun _ => hbuild with
      ⟨db'', hrun', hgood', -, -, hindexes⟩ | ⟨e, s, hrun', hfile, hs⟩
    · rw [Prog.bind_of_ok _ hrun']
      refine ⟨fun _ m => ?_, fun _ => hgood'⟩
      cases m with
      | init => exact hinit
      | indexes => exact fun hnot => hindexes (hpending.mpr hnot)
    · rw [Prog.bind_of_error _ hrun']
      refine hs.trans ⟨fun hindexes m => ?_, fun hharmless hnot => hharmless _ (hpending.mp hnot)⟩
      cases m with
      | init => exact hinit
      | indexes => exact fun hnot => hindexes (hpending.mpr hnot)
  · rw [Prog.bind_of_error _ hrun]
    refine hs.trans ⟨fun hinit m hnot hsevers => ?_, fun hharmless => hharmless .init⟩
    obtain rfl := hsevers.unique hfile
    exact hinit hnot hsevers

/-- A run leaves no half of a file exactly when its failure severs none. -/
theorem migrated_iff (h : ∀ m, Migration.AllOrNothing m db) :
    (∀ m, Migration.AllOrNothing m (migrated db fault)) ↔ Harmless db fault := by
  unfold migrated migrate
  rcases Session.send_cases (o := fault.outcomeAt .createSchemaMigrations)
    (e := some "database: creating schema_migrations")
    (Session.exec_apply_idle (d := db) (f := Schema.createSchemaMigrations) rfl) with
    ⟨-, hsend⟩ | ⟨s, hsend, hs⟩
  · rw [Prog.bind_of_ok _ hsend]
    have hgood : ∀ m, Migration.AllOrNothing m { db with schemaMigrations := some db.versions } := h
    exact files_run hgood rfl
  · rw [Prog.bind_of_error _ hsend]
    have hpoint : fault.point = .createSchemaMigrations := by
      refine outcomeAt_ne ?_
      rcases hs with ⟨h, -⟩ | ⟨h | h, -⟩ <;> rw [h] <;> decide
    refine ⟨fun _ m _ hsevers => ?_, fun _ => ?_⟩
    · have hfile := hsevers.file
      rw [hpoint] at hfile
      cases hfile
    · rcases hs with ⟨-, hs⟩ | ⟨-, hs⟩ <;> rw [hs] <;> exact h

end Files

/-- After every run of a history each file is applied and recorded, or neither,
exactly when no run of it severs a file. -/
theorem migrate_allOrNothing_iff (runs : List Fault) :
    (∀ done, done <+: runs → ∀ m : Migration, m.AllOrNothing (Run.run migrated Schema.empty done)) ↔
      Run.Along migrated Harmless Schema.empty runs := by
  refine Run.prefixes_iff_along (fun _ => True) (fun db => ∀ m : Migration, m.AllOrNothing db)
    (fun _ _ _ => True.intro) (fun db fault _ h => migrated_iff h) True.intro
    fun m => Or.inr ⟨fun _ _ => List.not_mem_nil, List.not_mem_nil⟩

/-- A run whose recording insert is refused leaves the tables without their row. -/
theorem record_refused_severs :
    ¬Migration.init.AllOrNothing (migrated Schema.empty ⟨.record .init, .refused⟩) := by
  unfold Migration.AllOrNothing
  decide +kernel

/-- The next run that does not fail repairs it. -/
example : Migration.init.AllOrNothing (Run.run migrated Schema.empty
    [⟨.record .init, .refused⟩, ⟨.check .init, .answered⟩]) := by
  unfold Migration.AllOrNothing
  decide +kernel

end ArkSwap.GoInternal
