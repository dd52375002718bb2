import ArkSwap.IndexerTokens
import ArkSwap.IndexerEvents

/-! The content of an index as a function of the chain alone: one pass over its
blocks, each with the memory that the tables so far determine. -/

namespace ArkSwap.GoInternal

open Prog

/-- The tables without the cursor. -/
def Database.forget (db : Database) : Database := { db with indexerState := ∅ }

/-- Tokens that always answer the same, on a node that never fails. -/
def Outside.steady (abi : ERC20ABI) (answers : Address → Method → Option (List UInt8)) (c : Chain) :
    Outside :=
  { abi := abi, chainID := fun _ => 0, hasCode := fun _ => true, chain := fun _ => c,
    answer := fun _ => answers, error := fun _ => none, lost := fun _ => false }

namespace Indexer

/-- The pairs that the factory creates on a chain. -/
def chainPairs (cfg : Config) (c : Chain) : List Address :=
  announced (c.filterLogs 0 c.length [cfg.factoryAddress] [.pairCreated])

/-- The logs of one block that an index is about, in their order. -/
def relevantLogs (cfg : Config) (c : Chain) (number : Nat) : List Log :=
  (c.logsAt number).filter fun l =>
    l.address = cfg.factoryAddress ∧ l.topic = some .pairCreated ∨
      (chainPairs cfg c).any (fun a => a = l.address) ∧ ∃ t ∈ pairTopics, l.topic = some t

/-- The record of a token that always answers the same. -/
def readToken (cfg : Config) (abi : ERC20ABI) (answers : Address → Method → Option (List UInt8))
    (a : Address) : Token :=
  applyTokenFlags cfg (tokenMetadata abi a (answers a .name) (answers a .symbol) (answers a .decimals))

/-- The records of some addresses, each once. -/
def gather (read : Address → Token) : List Address → List Token → List Token
  | [], tokens => tokens
  | a :: as, tokens =>
      if tokens.any fun t => t.address == some a then gather read as tokens
      else gather read as (tokens ++ [read a])

/-- The memory that mirrors the tables. -/
def remembered (db : Database) : Indexer :=
  { knownPairs := db.pairs, knownTokens := db.tokens, batchSize := 0 }

variable (cfg : Config) (read : Address → Token) (c : Chain)

def addBlock (number : Nat) (db : Database) : Option Database := do
  let header ← c.headerAt number
  let logs := relevantLogs cfg c number
  let tokens := gather read (createdTokens logs) []
  let r ← indexBlock cfg header number tokens logs ((remembered db).loadTokens tokens, db)
  pure r.2.forget

/-- The tables of an index of the blocks below a height, made in one pass. -/
def content : Nat → Option Database
  | 0 => some Database.empty
  | n + 1 =>
      (content n).bind fun db =>
        if relevantLogs cfg c n = [] then some db else addBlock cfg read c n db

variable {cfg : Config} {abi : ERC20ABI} {answers : Address → Method → Option (List UInt8)}
variable {c : Chain} {o : Outside} {header : Block} {ix ix' : Indexer} {db db' : Database} {l : Log}
variable {logs : List Log} {tokens : List Token} {number m n : Nat} {a : Address}

section Logs

theorem mem_chainPairs (hc : c.WellFormed cfg) : a ∈ chainPairs cfg c ↔ c.IsPair cfg a := by
  rw [chainPairs, mem_announced_factoryLogs hc]
  constructor
  · rintro ⟨m, ev, hm, -⟩
    exact ⟨m, ev, hm⟩
  · rintro ⟨m, ev, hm⟩
    obtain ⟨b, hb⟩ := hm.emits.header
    obtain ⟨mined, hmined, -⟩ := Chain.headerAt_eq_some.mp hb
    have hlt := (List.getElem?_eq_some_iff.mp hmined).1
    exact ⟨m, ev, hm, Nat.zero_le _, hlt.le⟩

theorem mem_relevantLogs (hc : c.WellFormed cfg) :
    l ∈ relevantLogs cfg c number ↔ c.Relevant cfg l ∧ l.blockNumber = number := by
  have hany : (chainPairs cfg c).any (fun a => a = l.address) = true ↔ c.IsPair cfg l.address := by
    simp [mem_chainPairs hc]
  rw [relevantLogs, List.mem_filter, decide_eq_true_eq, hany]
  constructor
  · rintro ⟨hl, hkind⟩
    exact ⟨⟨hc.emits hl, hkind⟩, hc.blockNumber number l hl⟩
  · rintro ⟨⟨hemits, hkind⟩, rfl⟩
    exact ⟨hemits, hkind⟩

theorem relevantLogs_pairwise (hc : c.WellFormed cfg) :
    (relevantLogs cfg c number).Pairwise fun l k => l.index < k.index :=
  (hc.order number).filter _

/-- Sorted logs of a block, each once, stand as in the block. -/
theorem eq_filter_logsAt (hc : c.WellFormed cfg) (hnodup : logs.Nodup)
    (hsorted : logs.Pairwise fun l k => ¬k.Before l) (hmem : ∀ l ∈ logs, l ∈ c.logsAt number) :
    logs = (c.logsAt number).filter (· ∈ logs) := by
  have hindices : ((c.logsAt number).filter (· ∈ logs)).Pairwise fun l k => l.index < k.index :=
    (hc.order number).filter _
  have hperm : logs.Perm ((c.logsAt number).filter (· ∈ logs)) := by
    refine (List.perm_ext_iff_of_nodup hnodup ?_).mpr fun l => ?_
    · exact hindices.imp fun {l k} hlt heq => by
        rw [heq] at hlt
        exact Nat.lt_irrefl _ hlt
    · rw [List.mem_filter, decide_eq_true_eq]
      exact ⟨fun hl => ⟨hmem l hl, hl⟩, And.right⟩
  have hone : ∀ l k, l ∈ logs → k ∈ (c.logsAt number).filter (· ∈ logs) → l.index ≤ k.index →
      k.index ≤ l.index → l = k := by
    intro l k hl hk hle hge
    have heq := Nat.le_antisymm hle hge
    by_contra hne
    have : Std.Symm fun l k : Log => l.index ≠ k.index := ⟨fun _ _ h => h.symm⟩
    exact ((hc.order number).imp fun {l k} hlt => Nat.ne_of_lt hlt).forall (hmem l hl)
      (List.mem_filter.mp hk).1 hne heq
  have hle : logs.Pairwise fun l k => l.index ≤ k.index := by
    refine hsorted.imp_of_mem fun {l k} hl hk hbefore => ?_
    have hlb := hc.blockNumber number l (hmem l hl)
    have hkb := hc.blockNumber number k (hmem k hk)
    rw [Log.Before] at hbefore
    omega
  exact List.Perm.eq_of_pairwise hone hle (hindices.imp fun {l k} hlt => hlt.le) hperm

theorem eq_relevantLogs (hc : c.WellFormed cfg) (hnodup : logs.Nodup)
    (hsorted : logs.Pairwise fun l k => ¬k.Before l)
    (hmem : ∀ l, l ∈ logs ↔ c.Relevant cfg l ∧ l.blockNumber = number) :
    logs = relevantLogs cfg c number := by
  refine (eq_filter_logsAt hc hnodup hsorted fun l hl => ?_).trans (List.filter_congr fun l hl => ?_)
  · obtain ⟨hrel, rfl⟩ := (hmem l).mp hl
    exact hrel.1
  · have hrelevant := (hmem l).trans (mem_relevantLogs hc).symm
    rw [relevantLogs, List.mem_filter, decide_eq_true_eq] at hrelevant
    exact decide_eq_decide.mpr (hrelevant.trans ⟨And.right, fun h => ⟨hl, h⟩⟩)

end Logs

section Records

variable {addresses : List Address} {ts : List Token} {s t : Sys}

theorem fetchToken_run (address : Address) (s : Sys) :
    fetchToken cfg o address s = (.ok (applyTokenFlags cfg (tokenMetadata o.abi address
      (if (o.error s.calls).isSome then none else o.answer s.calls address .name)
      (if (o.error (s.calls + 1)).isSome then none else o.answer (s.calls + 1) address .symbol)
      (if (o.error (s.calls + 2)).isSome then none else o.answer (s.calls + 2) address .decimals))),
      { s with calls := s.calls + 3 }) := rfl

/-- Where the answers do not change and none fails, the records are a function of
the addresses. -/
theorem fetchTokens_gather (habi : o.abi = abi) (hanswers : ∀ k a m, o.answer k a m = answers a m)
    (h : fetchTokens cfg o addresses tokens s = (.ok ts, t))
    (herror : ∀ k, s.calls ≤ k → k < t.calls → o.error k = none) :
    ts = gather (readToken cfg abi answers) addresses tokens := by
  induction addresses generalizing tokens s with
  | nil =>
    cases h
    rfl
  | cons a addresses ih =>
    rw [fetchTokens] at h
    rw [gather]
    split at h
    · rename_i hany
      rw [if_pos hany]
      exact ih h herror
    · rename_i hany
      rw [if_neg hany]
      rw [bind_of_ok _ (fetchToken_run a s)] at h
      have hle := (fetchTokens_grows addresses _).le h
      dsimp only at hle
      have hrecord : applyTokenFlags cfg (tokenMetadata o.abi a
          (if (o.error s.calls).isSome then none else o.answer s.calls a .name)
          (if (o.error (s.calls + 1)).isSome then none else o.answer (s.calls + 1) a .symbol)
          (if (o.error (s.calls + 2)).isSome then none else o.answer (s.calls + 2) a .decimals)) =
          readToken cfg abi answers a := by
        rw [herror s.calls (Nat.le_refl _) (by omega), herror (s.calls + 1) (by omega) (by omega),
          herror (s.calls + 2) (by omega) (by omega), habi, hanswers, hanswers, hanswers]
        rfl
      rw [hrecord] at h
      exact ih h fun k hk hlt => herror k (Nat.le_trans (Nat.le_add_right _ 3) hk) hlt

theorem gather_fetched :
    Fetched cfg abi addresses (gather (readToken cfg abi answers) addresses []) := by
  let o := Outside.steady abi answers []
  let s : Sys := { ix := remembered Database.empty, db := Database.empty, calls := 0 }
  obtain ⟨hok, herr⟩ := @fetchTokens_triple cfg o s.ix s.db addresses [] []
    ⟨by simp, by simp, List.Pairwise.nil⟩ s ⟨rfl, rfl⟩
  rcases hrun : fetchTokens cfg o addresses [] s with ⟨e | ts, t⟩
  · exact (herr e t hrun).elim
  · have hts : ts = gather (readToken cfg abi answers) addresses [] :=
      fetchTokens_gather rfl (fun _ _ _ => rfl) hrun fun _ _ _ => rfl
    rw [← hts]
    exact (hok ts t hrun).2

theorem mem_gather {read : Address → Token} {u : Token} (h : u ∈ gather read addresses tokens) :
    u ∈ tokens ∨ ∃ a, u = read a := by
  induction addresses generalizing tokens with
  | nil => exact Or.inl h
  | cons a addresses ih =>
    rw [gather] at h
    split at h
    · exact ih h
    · rcases ih h with hmem | hread
      · rcases List.mem_append.mp hmem with hmem | hmem
        · exact Or.inl hmem
        · exact Or.inr ⟨a, List.mem_singleton.mp hmem⟩
      · exact Or.inr hread

end Records

section Tokens

theorem readToken_merge (a : Address) :
    Database.mergeToken (readToken cfg abi answers a) (readToken cfg abi answers a) =
      readToken cfg abi answers a := by
  simp [Database.mergeToken]

theorem upserted_readToken {row : Option Token} (h : ∀ r, row = some r → r = readToken cfg abi answers a) :
    Database.upsertedToken row (readToken cfg abi answers a) = readToken cfg abi answers a := by
  rcases row with _ | r
  · rfl
  · rw [h r rfl]
    exact readToken_merge a

/-- Every stored token is as it answers. -/
def TokensRead (cfg : Config) (abi : ERC20ABI) (answers : Address → Method → Option (List UInt8))
    (db : Database) : Prop :=
  ∀ (a : Address) row, db.tokens[a]? = some row → row = readToken cfg abi answers a

/-- Memory and table take the same records of the tokens of a block. -/
theorem indexBlock_reads {addresses : List Address} (hread : TokensRead cfg abi answers db)
    (hmirror : ix.knownTokens = db.tokens)
    (hrun : indexBlock cfg header number (gather (readToken cfg abi answers) addresses []) logs
      (ix.loadTokens (gather (readToken cfg abi answers) addresses []), db) = some (ix', db')) :
    ix'.knownTokens = db'.tokens ∧ TokensRead cfg abi answers db' := by
  have hfetched : Fetched cfg abi addresses (gather (readToken cfg abi answers) addresses []) :=
    gather_fetched
  have hrecord : ∀ a t, recordOf (gather (readToken cfg abi answers) addresses []) a = some t →
      t = readToken cfg abi answers a := by
    intro a t ht
    obtain ⟨hmem, hta⟩ := recordOf_eq_some ht
    rcases mem_gather hmem with hnil | ⟨b, rfl⟩
    · exact (List.not_mem_nil hnil).elim
    · have hba : (readToken cfg abi answers b).address = some b := rfl
      rw [hba] at hta
      rw [Option.some.inj hta]
  have hget : ∀ a : Address, ix'.knownTokens[a]? = db'.tokens[a]? ∧
      ∀ row, db'.tokens[a]? = some row → row = readToken cfg abi answers a := by
    intro a
    obtain ⟨hmemory, htable⟩ := indexBlock_tokens (a := a) hfetched.distinct hrun
    rw [hmemory, htable, hmirror]
    rcases hr : recordOf (gather (readToken cfg abi answers) addresses []) a with _ | t
    · exact ⟨rfl, hread a⟩
    · dsimp only
      rw [hrecord a t hr, upserted_readToken (hread a)]
      exact ⟨rfl, fun row hrow => (Option.some.inj hrow).symm⟩
  exact ⟨Std.ExtTreeMap.ext_getElem? fun a => (hget a).1, fun a => (hget a).2⟩

end Tokens

section Pairs

/-- The stored pairs were created by logs of a set, and no Sync of theirs is above a
height. -/
def PairsSettled (cfg : Config) (c : Chain) (S : Log → Prop) (n : Nat) (db : Database) : Prop :=
  ∀ (a : Address) row, db.pairs[a]? = some row →
    (∃ k ev, c.Created cfg a k ev ∧ S k) ∧ row.lastSyncBlock.all (· ≤ n) = true

theorem stepLog_settled {S : Log → Prop} (hc : c.WellFormed cfg) (hrel : c.Relevant cfg l)
    (hl : l.blockNumber = number) (hnew : ¬S l) (hpairs : ix.knownPairs = db.pairs)
    (hsettled : PairsSettled cfg c S number db)
    (hstep : stepLog cfg header (ix, db) l = some (ix', db')) :
    ix'.knownPairs = db'.pairs ∧ PairsSettled cfg c (fun k => S k ∨ k = l) number db' := by
  have hmono : PairsSettled cfg c (fun k => S k ∨ k = l) number db := fun a row hrow => by
    obtain ⟨⟨k, ev, hk, hS⟩, hsync⟩ := hsettled a row hrow
    exact ⟨⟨k, ev, hk, Or.inl hS⟩, hsync⟩
  rcases stepLog_cases hstep with ⟨-, rfl, rfl⟩ | ⟨statement, ha, -, rfl⟩
  · exact ⟨hpairs, hmono⟩
  · cases ha with
    | created p hp =>
      obtain ⟨htopic, ev, hev, rfl⟩ := pairOf_eq_some.mp hp
      have hcreated : c.Created cfg ev.pair l ev := hrel.created htopic hev
      have habsent : db.pairs[ev.pair]? = none := by
        rcases hrow : db.pairs[ev.pair]? with _ | row
        · rfl
        · obtain ⟨⟨k, ev', hk, hS⟩, -⟩ := hsettled ev.pair row hrow
          rw [hc.created_once ev.pair k ev' l ev hk hcreated] at hS
          exact (hnew hS).elim
      have hget : ∀ b : Address, ((Database.upsertPair (createdPair header l ev)).effect db).pairs[b]? =
          (ix.addPair (createdPair header l ev)).knownPairs[b]? := by
        intro b
        change (db.pairs.insertIfNew ev.pair _)[b]? = (ix.knownPairs.insert ev.pair _)[b]?
        rw [Table.get_insertIfNew, Table.get_insert, hpairs]
        by_cases hb : b = ev.pair
        · rw [if_pos ⟨hb, habsent⟩, if_pos hb]
          rfl
        · rw [if_neg fun h => hb h.1, if_neg hb]
      refine ⟨Std.ExtTreeMap.ext_getElem? fun b => (hget b).symm, fun b row hrow => ?_⟩
      rw [hget b] at hrow
      change (ix.knownPairs.insert ev.pair _)[b]? = some row at hrow
      rw [Table.get_insert] at hrow
      split at hrow
      · rename_i hb
        rw [hb, ← Option.some.inj hrow]
        exact ⟨⟨l, ev, hcreated, Or.inr rfl⟩, rfl⟩
      · rw [hpairs] at hrow
        exact hmono b row hrow
    | synced ev htopic hev =>
      have hget : ∀ b : Address, ((Database.setPairReserves l.address ev.reserve0 ev.reserve1
          l.blockNumber).effect db).pairs[b]? =
            (ix.syncPair l.address ev.reserve0 ev.reserve1 l.blockNumber).knownPairs[b]? := by
        intro b
        change (db.pairs.modify l.address _)[b]? = (ix.knownPairs.modify l.address _)[b]?
        rw [Table.get_modify, Table.get_modify, hpairs]
        split
        · rcases hrow : db.pairs[l.address]? with _ | row
          · rfl
          · have hguard := (hsettled l.address row hrow).2
            rw [← hl] at hguard
            rw [Option.map_some, Option.map_some, if_pos hguard]
        · rfl
      refine ⟨Std.ExtTreeMap.ext_getElem? fun b => (hget b).symm, fun b row hrow => ?_⟩
      rw [hget b] at hrow
      change (ix.knownPairs.modify l.address _)[b]? = some row at hrow
      rw [Table.get_modify, hpairs] at hrow
      split at hrow
      · rename_i hb
        obtain ⟨old, hold, rfl⟩ := Option.map_eq_some_iff.mp hrow
        rw [hb]
        refine ⟨(hmono l.address old hold).1, ?_⟩
        simp [Database.setReserves, hl]
      · exact hmono b row hrow
    | swapped s p hs hp => exact ⟨hpairs, hmono⟩
    | deposited e he => exact ⟨hpairs, hmono⟩

theorem stepLogs_settled {S : Log → Prop} (hc : c.WellFormed cfg)
    (hlogs : ∀ l ∈ logs, c.Relevant cfg l ∧ l.blockNumber = number) (hnodup : logs.Nodup)
    (hnew : ∀ l ∈ logs, ¬S l) (hpairs : ix.knownPairs = db.pairs)
    (hsettled : PairsSettled cfg c S number db)
    (hfold : logs.foldlM (stepLog cfg header) (ix, db) = some (ix', db')) :
    ix'.knownPairs = db'.pairs ∧ PairsSettled cfg c (fun k => S k ∨ k ∈ logs) number db' := by
  induction logs generalizing ix db S with
  | nil =>
    cases hfold
    simpa using ⟨hpairs, hsettled⟩
  | cons l logs ih =>
    rw [List.foldlM_cons] at hfold
    obtain ⟨⟨ix₁, db₁⟩, hstep, hrest⟩ := Option.bind_eq_some_iff.mp hfold
    obtain ⟨hl, hnodup⟩ := List.nodup_cons.mp hnodup
    obtain ⟨hrel, hblock⟩ := hlogs l List.mem_cons_self
    obtain ⟨hpairs₁, hsettled₁⟩ := stepLog_settled hc hrel hblock (hnew l List.mem_cons_self) hpairs
      hsettled hstep
    have hafter := ih (S := fun k => S k ∨ k = l) (fun k hk => hlogs k (List.mem_cons_of_mem l hk))
      hnodup (fun k hk hS => ?_) hpairs₁ hsettled₁ hrest
    · simpa only [List.mem_cons, or_assoc] using hafter
    · rcases hS with hS | rfl
      · exact hnew k (List.mem_cons_of_mem l hk) hS
      · exact hl hk

end Pairs

section Alike

/-- Two states that differ in their cursors and batch sizes only. -/
structure Alike (s t : Indexer × Database) : Prop where
  pairs : s.1.knownPairs = t.1.knownPairs
  tokens : s.1.knownTokens = t.1.knownTokens
  tables : s.2.forget = t.2.forget

/-- A statement that does not read the cursor. -/
def Cursorless (statement : Statement) : Prop :=
  ∀ (db : Database) cursors, statement.allowed { db with indexerState := cursors } = statement.allowed db ∧
    (statement.effect { db with indexerState := cursors }).forget = (statement.effect db).forget

theorem Cursorless.alike {statement : Statement} (h : Cursorless statement)
    (hdb : db.forget = db'.forget) : statement.allowed db = statement.allowed db' ∧
      (statement.effect db).forget = (statement.effect db').forget := by
  have hfirst := h db ∅
  have hsecond := h db' ∅
  rw [show { db with indexerState := ∅ } = db.forget from rfl, hdb] at hfirst
  exact ⟨hfirst.1.symm.trans hsecond.1, hfirst.2.symm.trans hsecond.2⟩

theorem upsertToken_cursorless (t : Token) : Cursorless (Database.upsertToken t) := fun db cursors => by
  refine ⟨rfl, ?_⟩
  simp only [Database.upsertToken]
  split <;> rfl

theorem applied_cursorless {statement : Statement} (h : Applied cfg header ix l statement ix') :
    Cursorless statement := by
  cases h with
  | created p hp => exact fun _ _ => ⟨rfl, rfl⟩
  | synced ev htopic hev => exact fun _ _ => ⟨rfl, rfl⟩
  | swapped s p hs hp => exact fun _ _ => ⟨rfl, rfl⟩
  | deposited e he => exact fun _ _ => ⟨rfl, rfl⟩

theorem runAll_alike {statements : List Statement} {d : Database}
    (hall : ∀ st ∈ statements, Cursorless st) (hdb : db.forget = d.forget)
    (h : runAll statements db = some db') :
    ∃ d', runAll statements d = some d' ∧ db'.forget = d'.forget := by
  induction statements generalizing db d with
  | nil =>
    cases h
    exact ⟨d, rfl, hdb⟩
  | cons st statements ih =>
    rw [runAll, List.foldlM_cons] at h
    obtain ⟨db₁, h₁, hrest⟩ := Option.bind_eq_some_iff.mp h
    obtain ⟨hallowed, heffect⟩ := (hall st List.mem_cons_self).alike hdb
    rw [Statement.run] at h₁
    split at h₁
    · rename_i ha
      cases h₁
      obtain ⟨d', hd', htables⟩ := ih (fun st' hst' => hall st' (List.mem_cons_of_mem st hst')) heffect
        hrest
      refine ⟨d', ?_, htables⟩
      rw [runAll, List.foldlM_cons, Statement.run, if_pos (hallowed ▸ ha)]
      exact hd'
    · cases h₁

theorem applyLog_batch (cfg : Config) (header : Block) (ix : Indexer) (l : Log) (b : Nat) :
    applyLog cfg header { ix with batchSize := b } l =
      (applyLog cfg header ix l).map fun r => (r.1, { r.2 with batchSize := b }) := by
  unfold applyLog
  split
  · rcases decodePairCreated l with _ | ev <;> rfl
  · rcases decodeSync l with _ | ev <;> rfl
  · rcases decodeSwap l with _ | ev
    · rfl
    · dsimp only
      rcases ix.knownPairs[l.address]? with _ | p <;> rfl
  · rcases decodeMint l with _ | ev <;> rfl
  · rcases decodeBurn l with _ | ev <;> rfl
  · rfl

theorem Alike.memory {s t : Indexer × Database} (h : Alike s t) :
    t.1 = { s.1 with batchSize := t.1.batchSize } := by
  change t.1 = ⟨s.1.knownPairs, s.1.knownTokens, t.1.batchSize⟩
  rw [h.pairs, h.tokens]

theorem Alike.stepLog {s t s' : Indexer × Database} (h : Alike s t)
    (hstep : Indexer.stepLog cfg header s l = some s') :
    ∃ t', Indexer.stepLog cfg header t l = some t' ∧ Alike s' t' := by
  rcases ha : applyLog cfg header s.1 l with _ | ⟨statement, ix₁⟩
  · have hstay : Indexer.stepLog cfg header t l = some t := by
      rw [Indexer.stepLog, h.memory, applyLog_batch, ha]
      rfl
    rw [Indexer.stepLog, ha] at hstep
    cases hstep
    exact ⟨t, hstay, h⟩
  · have happlied : applyLog cfg header t.1 l =
        some (statement, { ix₁ with batchSize := t.1.batchSize }) := by
      rw [h.memory, applyLog_batch, ha]
      rfl
    rw [Indexer.stepLog, ha] at hstep
    obtain ⟨db₁, hrun, rfl⟩ := Option.map_eq_some_iff.mp hstep
    obtain ⟨hallowed, heffect⟩ := (applied_cursorless (applied_of_applyLog ha)).alike h.tables
    rw [Statement.run] at hrun
    split at hrun
    · rename_i hok
      cases hrun
      refine ⟨({ ix₁ with batchSize := t.1.batchSize }, statement.effect t.2), ?_, rfl, rfl, heffect⟩
      rw [Indexer.stepLog, happlied]
      dsimp only
      rw [Statement.run, if_pos (hallowed ▸ hok)]
      rfl
    · cases hrun

theorem Alike.stepLogs {s t s' : Indexer × Database} (h : Alike s t)
    (hfold : logs.foldlM (Indexer.stepLog cfg header) s = some s') :
    ∃ t', logs.foldlM (Indexer.stepLog cfg header) t = some t' ∧ Alike s' t' := by
  induction logs generalizing s t with
  | nil =>
    cases hfold
    exact ⟨t, rfl, h⟩
  | cons l logs ih =>
    rw [List.foldlM_cons] at hfold
    obtain ⟨s₁, hstep, hrest⟩ := Option.bind_eq_some_iff.mp hfold
    obtain ⟨t₁, hstep', h₁⟩ := h.stepLog hstep
    obtain ⟨t', hrest', h'⟩ := ih h₁ hrest
    exact ⟨t', by rw [List.foldlM_cons, hstep']; exact hrest', h'⟩

theorem opening_cursorless : ∀ st ∈ openingStatements header tokens, Cursorless st := by
  intro st hst
  rcases List.mem_cons.mp hst with rfl | hst
  · exact fun _ _ => ⟨rfl, rfl⟩
  · obtain ⟨u, -, rfl⟩ := List.mem_map.mp hst
    exact upsertToken_cursorless u

theorem closing_cursorless :
    ∀ st ∈ snapshotStatements cfg header ix logs ++ [cursorAt cfg number header], Cursorless st := by
  intro st hst
  rcases List.mem_append.mp hst with hst | hst
  · obtain ⟨snap, -, rfl⟩ := List.mem_map.mp hst
    exact fun _ _ => ⟨rfl, rfl⟩
  · rw [List.mem_singleton.mp hst]
    exact fun _ _ => ⟨rfl, rfl⟩

theorem Alike.indexBlock {s t s' : Indexer × Database} (h : Alike s t)
    (hrun : Indexer.indexBlock cfg header number tokens logs s = some s') :
    ∃ t', Indexer.indexBlock cfg header number tokens logs t = some t' ∧ Alike s' t' := by
  obtain ⟨ix', db'⟩ := s'
  obtain ⟨db₁, db₂, hopen, hfold, hclose⟩ := indexBlock_eq_some hrun
  obtain ⟨d₁, hopen', htables₁⟩ := runAll_alike opening_cursorless h.tables hopen
  obtain ⟨⟨ix₂, d₂⟩, hfold', h₂⟩ := Alike.stepLogs (s := (s.1, db₁)) (t := (t.1, d₁))
    ⟨h.pairs, h.tokens, htables₁⟩ hfold
  have hsnapshots : snapshotStatements cfg header ix₂ logs = snapshotStatements cfg header ix' logs := by
    rw [show ix₂ = { ix' with batchSize := ix₂.batchSize } from h₂.memory]
    rfl
  obtain ⟨d₃, hclose', htables₃⟩ := runAll_alike closing_cursorless h₂.tables hclose
  refine ⟨(ix₂, d₃), ?_, h₂.pairs, h₂.tokens, htables₃⟩
  rw [← hsnapshots] at hclose'
  simp only [Indexer.indexBlock, hopen', hfold', hclose', Option.bind_eq_bind, Option.bind_some]
  rfl

end Alike

section Content

theorem indexBlock_settled (hc : c.WellFormed cfg) (hpairs : ix.knownPairs = db.pairs)
    (hsettled : PairsSettled cfg c (Below n) n db)
    (hrun : indexBlock cfg header n tokens (relevantLogs cfg c n) (ix, db) = some (ix', db')) :
    ix'.knownPairs = db'.pairs ∧ PairsSettled cfg c (Below (n + 1)) (n + 1) db' := by
  obtain ⟨db₁, db₂, hopen, hfold, hclose⟩ := indexBlock_eq_some hrun
  have hopened := (opening_rows hopen).pairs
  have hclosed := (closing_rows hclose).pairs
  have hnodup : (relevantLogs cfg c n).Nodup := (relevantLogs_pairwise hc).imp fun {l k} hlt heq => by
    rw [heq] at hlt
    exact Nat.lt_irrefl _ hlt
  have hnew : ∀ l ∈ relevantLogs cfg c n, ¬Below n l := fun l hl hbelow => by
    rw [Below, ((mem_relevantLogs hc).mp hl).2] at hbelow
    exact Nat.lt_irrefl n hbelow
  obtain ⟨hpairs', hsettled'⟩ := stepLogs_settled hc (fun l hl => (mem_relevantLogs hc).mp hl) hnodup
    hnew (hpairs.trans hopened.symm) (by rw [PairsSettled, hopened]; exact hsettled) hfold
  refine ⟨hpairs'.trans hclosed.symm, fun a row hrow => ?_⟩
  rw [hclosed] at hrow
  obtain ⟨⟨k, ev, hk, hS⟩, hsync⟩ := hsettled' a row hrow
  refine ⟨⟨k, ev, hk, ?_⟩, ?_⟩
  · rcases hS with hbelow | hmem
    · exact Nat.lt_succ_of_lt hbelow
    · exact Nat.lt_succ_of_le ((mem_relevantLogs hc).mp hmem).2.le
  · rcases hlast : row.lastSyncBlock with _ | last
    · rfl
    · rw [hlast] at hsync
      have hle : last ≤ n := of_decide_eq_true hsync
      exact decide_eq_true (Nat.le_succ_of_le hle)

theorem content_succ {read : Address → Token} (h : relevantLogs cfg c n ≠ []) :
    content cfg read c (n + 1) = (content cfg read c n).bind (addBlock cfg read c n) := by
  rw [content]
  congr 1
  funext d
  exact if_neg h

theorem addBlock_eq_some {read : Address → Token} (h : addBlock cfg read c n db = some db') :
    ∃ header ix₁ db₁, c.headerAt n = some header ∧
      indexBlock cfg header n (gather read (createdTokens (relevantLogs cfg c n)) [])
        (relevantLogs cfg c n) ((remembered db).loadTokens
          (gather read (createdTokens (relevantLogs cfg c n)) []), db) = some (ix₁, db₁) ∧
      db' = db₁.forget := by
  obtain ⟨header, hheader, h⟩ := Option.bind_eq_some_iff.mp h
  obtain ⟨⟨ix₁, db₁⟩, hrun, h⟩ := Option.bind_eq_some_iff.mp h
  exact ⟨header, ix₁, db₁, hheader, hrun, (Option.some.inj h).symm⟩

theorem content_inv (hc : c.WellFormed cfg)
    (h : content cfg (readToken cfg abi answers) c n = some db) :
    TokensRead cfg abi answers db ∧ PairsSettled cfg c (Below n) n db := by
  induction n generalizing db with
  | zero =>
    cases h
    refine ⟨fun a row hrow => ?_, fun a row hrow => ?_⟩
    · simp [Database.empty] at hrow
    · simp [Database.empty] at hrow
  | succ n ih =>
    by_cases hnil : relevantLogs cfg c n = []
    · rw [content] at h
      obtain ⟨d, hd, h⟩ := Option.bind_eq_some_iff.mp h
      rw [if_pos hnil] at h
      cases h
      obtain ⟨htokens, hpairs⟩ := ih hd
      refine ⟨htokens, fun a row hrow => ?_⟩
      obtain ⟨⟨k, ev, hk, hbelow⟩, hsync⟩ := hpairs a row hrow
      refine ⟨⟨k, ev, hk, Nat.lt_succ_of_lt hbelow⟩, ?_⟩
      rcases hlast : row.lastSyncBlock with _ | last
      · rfl
      · rw [hlast] at hsync
        have hle : last ≤ n := of_decide_eq_true hsync
        exact decide_eq_true (Nat.le_succ_of_le hle)
    · rw [content_succ hnil] at h
      obtain ⟨d, hd, h⟩ := Option.bind_eq_some_iff.mp h
      obtain ⟨htokens, hpairs⟩ := ih hd
      obtain ⟨header, ix₁, db₁, -, hrun, rfl⟩ := addBlock_eq_some h
      exact ⟨(indexBlock_reads htokens rfl hrun).2, (indexBlock_settled hc rfl hpairs hrun).2⟩

theorem content_quiet {read : Address → Token} (hc : c.WellFormed cfg) (hmn : m ≤ n)
    (hquiet : Quiet cfg c m n) : content cfg read c n = content cfg read c m := by
  induction n, hmn using Nat.le_induction with
  | base => rfl
  | succ n hmn ih =>
    have hnil : relevantLogs cfg c n = [] := by
      rw [List.eq_nil_iff_forall_not_mem]
      intro l hl
      obtain ⟨hrel, hn⟩ := (mem_relevantLogs hc).mp hl
      exact hquiet l hrel (by omega) (by omega)
    rw [content, ih fun l hl hge hlt => hquiet l hl hge (Nat.lt_succ_of_lt hlt)]
    rcases content cfg read c m with _ | d
    · rfl
    · exact if_pos hnil

/-- A state whose memory mirrors its tables, which are those of one pass over the
chain. -/
structure Follows (cfg : Config) (abi : ERC20ABI) (answers : Address → Method → Option (List UInt8))
    (c : Chain) (ix : Indexer) (db : Database) : Prop where
  content : content cfg (readToken cfg abi answers) c (nextBlock cfg db) = some db.forget
  pairs : ix.knownPairs = db.pairs
  tokens : ix.knownTokens = db.tokens

theorem Follows.block (hc : c.WellFormed cfg) (h : Follows cfg abi answers c ix db)
    (hnext : nextBlock cfg db ≤ n) (hquiet : Quiet cfg c (nextBlock cfg db) n)
    (hheader : c.headerAt n = some header) (hnil : relevantLogs cfg c n ≠ [])
    (hrun : indexBlock cfg header n
      (gather (readToken cfg abi answers) (createdTokens (relevantLogs cfg c n)) [])
      (relevantLogs cfg c n) (ix.loadTokens
        (gather (readToken cfg abi answers) (createdTokens (relevantLogs cfg c n)) []), db) =
        some (ix', db')) : Follows cfg abi answers c ix' db' := by
  have hcontent : Indexer.content cfg (readToken cfg abi answers) c n = some db.forget := by
    rw [content_quiet hc hnext hquiet, h.content]
  have hinv := content_inv hc hcontent
  have hread : TokensRead cfg abi answers db := hinv.1
  have hsettled : PairsSettled cfg c (Below n) n db := hinv.2
  have hloaded : (ix.loadTokens (gather (readToken cfg abi answers)
      (createdTokens (relevantLogs cfg c n)) [])).knownPairs = db.pairs := h.pairs
  have halike : Alike (ix.loadTokens (gather (readToken cfg abi answers)
      (createdTokens (relevantLogs cfg c n)) []), db) ((remembered db.forget).loadTokens
        (gather (readToken cfg abi answers) (createdTokens (relevantLogs cfg c n)) []), db.forget) := by
    refine ⟨h.pairs, ?_, rfl⟩
    rw [loadTokens, loadTokens, h.tokens]
    rfl
  obtain ⟨⟨ix₁, db₁⟩, hrun', hafter⟩ := halike.indexBlock hrun
  refine ⟨?_, (indexBlock_settled hc hloaded hsettled hrun).1,
    (indexBlock_reads hread h.tokens hrun).1⟩
  have hnext' : nextBlock cfg db' = n + 1 := nextBlock_of_some (indexBlock_cursor hrun)
  rw [hnext', content_succ hnil, hcontent, Option.bind_some, addBlock, hheader]
  have htables : db'.forget = db₁.forget := hafter.tables
  simp only [Option.bind_eq_bind, Option.bind_some, hrun', htables]
  rfl

theorem Follows.cursor (hc : c.WellFormed cfg) (h : Follows cfg abi answers c ix db)
    (hnext : nextBlock cfg db ≤ n + 1) (hquiet : Quiet cfg c (nextBlock cfg db) (n + 1)) :
    Follows cfg abi answers c ix ((cursorAt cfg n header).effect db) := by
  refine ⟨?_, h.pairs, h.tokens⟩
  rw [nextBlock_of_some (cursorAt_effect cfg n header db)]
  dsimp only
  rw [content_quiet hc hnext hquiet, h.content]
  rfl

theorem Follows.loaded (hc : c.WellFormed cfg) (h : Indexer.content cfg (readToken cfg abi answers) c
      (nextBlock cfg db) = some db.forget) (hkeys : ∀ (a : Address) p, db.pairs[a]? = some p → p.address = a) :
    Follows cfg abi answers c (Process.loaded cfg db) db := by
  obtain ⟨hread, -⟩ := content_inv hc h
  refine ⟨h, Table.foldl_insert_rows hkeys, loaded_tokens fun a row hrow => ?_⟩
  rw [hread a row hrow]
  rfl

end Content

end Indexer

end ArkSwap.GoInternal
