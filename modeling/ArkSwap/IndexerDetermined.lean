import ArkSwap.IndexerWalks

/-! Two runs over one chain: whatever the batches, the restarts and the orders of
the walks were, an error-free run leaves at a cursor what one pass over the
chain leaves there. -/

namespace ArkSwap.GoInternal

open Prog

namespace Indexer

variable {cfg : Config} {o : Outside} {w : Walks} {c : Chain} {abi : ERC20ABI}
variable {answers : Address → Method → Option (List UInt8)} {ix : Indexer} {db : Database} {s t : Sys}
variable {logs : List Log} {bn top fromBlock toBlock N : Nat} {known known' : List Address}
variable {rest : List Nat}

section Fetching

theorem filterLogs_nodup (hc : c.WellFormed cfg) {addresses : List Address} {topics : List Topic} :
    (c.filterLogs fromBlock toBlock addresses topics).Nodup := by
  rw [Chain.filterLogs, List.nodup_flatMap]
  constructor
  · intro n _
    refine List.Nodup.filter _ ((hc.order n).imp fun {l k} hlt heq => ?_)
    rw [heq] at hlt
    exact Nat.lt_irrefl _ hlt
  · refine List.Pairwise.imp (R := fun n m => n ≠ m) (fun {n m} hne => ?_)
      (List.nodup_range' (s := fromBlock) (n := toBlock + 1 - fromBlock))
    intro l hl hl'
    have hn := hc.blockNumber n l (List.mem_of_mem_filter hl)
    have hm := hc.blockNumber m l (List.mem_of_mem_filter hl')
    exact hne (hn.symm.trans hm)

theorem fetched_nodup (hc : c.WellFormed cfg) : (fetched cfg c known fromBlock toBlock).Nodup := by
  refine List.Nodup.append (filterLogs_nodup hc) (filterLogs_nodup hc) ?_
  intro l hl hl'
  obtain ⟨-, -, t, ht, htopic⟩ := Chain.mem_filterLogs.mp hl
  obtain ⟨-, -, t', ht', htopic'⟩ := Chain.mem_filterLogs.mp hl'
  rw [htopic] at htopic'
  obtain rfl := Option.some.inj htopic'
  rw [List.mem_singleton.mp ht] at ht'
  exact absurd ht' (by decide)

theorem mem_fetched_perm (hperm : known.Perm known') (l : Log) :
    l ∈ fetched cfg c known fromBlock toBlock ↔ l ∈ fetched cfg c known' fromBlock toBlock := by
  rw [fetched, fetched, List.mem_append, List.mem_append, Chain.mem_filterLogs, Chain.mem_filterLogs,
    Chain.mem_filterLogs, List.mem_append, List.mem_append, hperm.mem_iff]

/-- The blocks of a range do not depend on the order of its logs. -/
theorem blockNums_congr {logs' : List Log} (h : ∀ l, l ∈ logs ↔ l ∈ logs') :
    blockNums (sortLogs logs) = blockNums (sortLogs logs') := by
  have hmem : ∀ n, n ∈ blockNums (sortLogs logs) ↔ n ∈ blockNums (sortLogs logs') := fun n => by
    simp only [mem_blockNums, mem_sortLogs, h]
  have hnodup : ∀ ls : List Log, (blockNums ls).Nodup := fun ls =>
    (blockNums_pairwise ls).imp fun {m n} hlt => Nat.ne_of_lt hlt
  have hperm := (List.perm_ext_iff_of_nodup (hnodup (sortLogs logs)) (hnodup (sortLogs logs'))).mpr hmem
  have hone : ∀ m n, m ∈ blockNums (sortLogs logs) → n ∈ blockNums (sortLogs logs') → m < n → n < m →
      m = n := fun m n _ _ hlt hgt => absurd hlt (Nat.lt_asymm hgt)
  exact List.Perm.eq_of_pairwise hone (blockNums_pairwise _) (blockNums_pairwise _) hperm

theorem fetchLogsBy_triple {P : Indexer → Database → Prop}
    (hchain : ∀ k, ∀ n ≤ toBlock, (o.chain k)[n]? = (c)[n]?) :
    Triple (On P) (fetchLogsBy cfg o w fromBlock toBlock)
      (fun logs => On fun ix db => P ix db ∧ ∃ known,
        known.Perm (ix.knownPairs.toList.map Prod.fst) ∧
          logs = fetched cfg c known fromBlock toBlock) (On P) := by
  refine Triple.conseq (queries_triple hchain fun s => (w.pairs s.calls s.ix.knownPairs.toList).map Prod.fst)
    (fun _ hs => hs) ?_ fun _ hs => hs
  rintro logs s ⟨hP, r, hix, rfl⟩
  refine ⟨hP, _, ?_, rfl⟩
  rw [← hix]
  exact (w.pairs_perm _ _).map _

end Fetching

section Ranges

variable (hnet : Chain.Network cfg {c})

include hnet

theorem wellFormed_self : c.WellFormed cfg := hnet.wellFormed c rfl

theorem logsOf_fetched (h : Checked True cfg {c} c ix db)
    (hperm : known.Perm (ix.knownPairs.toList.map Prod.fst)) (hfrom : nextBlock cfg db ≤ bn)
    (hto : bn ≤ toBlock) :
    logsOf (fetched cfg c known (nextBlock cfg db) toBlock) bn = relevantLogs cfg c bn := by
  have hc := wellFormed_self hnet
  refine eq_relevantLogs hc ?_ (logsOf_pairwise _ bn) fun l => ?_
  · exact List.Nodup.filter _ ((List.perm_insertionSort _ _).nodup_iff.mpr (fetched_nodup hc))
  · rw [mem_logsOf, mem_fetched_perm hperm]
    constructor
    · rintro ⟨hmem, hbn⟩
      refine ⟨relevant_of_mem_fetched hnet rfl (fun a ha => ?_) hmem, hbn⟩
      obtain ⟨p, hp⟩ := mem_keys.mp ha
      exact h.genuine a p hp
    · rintro ⟨hrel, rfl⟩
      exact ⟨mem_fetched_of_relevant hnet rfl (fun a m ev hm hlt =>
        mem_keys.mpr (h.knows True.intro a m ev hm hlt)) hrel hfrom hto, rfl⟩

/-- A block of the range in the middle of an error-free Tick: none of its first `N`
calls fails, but for the last. -/
theorem processBlockBy_follows (hsees : Sees o c top) (htop : toBlock ≤ top) (habi : o.abi = abi)
    (hanswers : ∀ k a m, o.answer k a m = answers a m)
    (herror : ∀ k e, o.error k = some e → N ≤ k + 1) :
    Triple (fun s => Filling True cfg {c} c fromBlock toBlock (bn :: rest) s.ix s.db ∧ Keyed s.ix ∧
        relevantLogs cfg c bn ≠ [] ∧ (s.calls ≤ N → Follows cfg abi answers c s.ix s.db))
      (processBlockBy cfg o w bn (relevantLogs cfg c bn))
      (fun _ t => Filling True cfg {c} c fromBlock toBlock rest t.ix t.db ∧ Keyed t.ix ∧
        (t.calls ≤ N → Follows cfg abi answers c t.ix t.db)) fun _ => True := by
  have hc := wellFormed_self hnet
  rintro s ⟨hfilling, hkeyed, hnil, hfollows⟩
  refine ⟨fun _ t hrun => ?_, fun _ _ _ => True.intro⟩
  obtain ⟨header, s₁, ts, s₂, ⟨k, hheader⟩, hfetch, hlt, hindex⟩ := processBlockBy_ok hkeyed hrun
  obtain ⟨hnext, hbn⟩ := hfilling.above bn List.mem_cons_self
  rw [hsees.header (Nat.le_trans hbn htop)] at hheader
  have hblock : BlockLogs True cfg c bn header (relevantLogs cfg c bn) :=
    { headerAt := hheader
      number := hc.number bn header hheader
      relevant := fun l hl => (mem_relevantLogs hc).mp hl
      all := fun _ l hl hbn => (mem_relevantLogs hc).mpr ⟨hl, hbn⟩
      sorted := (relevantLogs_pairwise hc).imp_of_mem fun {l m} hl hm hlt hbefore => by
        have hlb := ((mem_relevantLogs hc).mp hl).2
        have hmb := ((mem_relevantLogs hc).mp hm).2
        rw [Log.Before] at hbefore
        omega }
  have hmemory := indexBlock_memory hindex
  refine ⟨hfilling.block hnet rfl hblock hindex, ?_, fun hN => ?_⟩
  · rw [hmemory]
    exact Keyed.foldl hkeyed
  · have hle := processBlockBy_grows.le hrun
    have htokens : ts = gather (readToken cfg abi answers) (createdTokens (relevantLogs cfg c bn)) [] := by
      refine fetchTokens_gather habi hanswers hfetch fun k _ hk => ?_
      rcases he : o.error k with _ | e
      · rfl
      · have hlast := herror k e he
        omega
    rw [htokens] at hindex
    exact (hfollows (Nat.le_trans hle hN)).block hc hnext (hfilling.quiet True.intro) hheader hnil hindex

theorem indexLogsBy_follows (hsees : Sees o c top) (htop : toBlock ≤ top)
    (hdeploy : cfg.factoryDeployBlock ≤ toBlock) (habi : o.abi = abi)
    (hanswers : ∀ k a m, o.answer k a m = answers a m)
    (herror : ∀ k e, o.error k = some e → N ≤ k + 1)
    (hlogs : ∀ bn, fromBlock ≤ bn → bn ≤ toBlock → logsOf logs bn = relevantLogs cfg c bn) :
    Triple (fun s => Filling True cfg {c} c fromBlock toBlock (blockNums (sortLogs logs)) s.ix s.db ∧
        Keyed s.ix ∧ Follows cfg abi answers c s.ix s.db)
      (indexLogsBy cfg o w toBlock logs)
      (fun _ t => t.calls ≤ N → Held True cfg {c} t.ix t.db ∧ Follows cfg abi answers c t.ix t.db)
      fun _ => True := by
  have hc := wellFormed_self hnet
  refine Triple.bind (Triple.conseq (Triple.forEach (fun rest s =>
    Filling True cfg {c} c fromBlock toBlock rest s.ix s.db ∧ Keyed s.ix ∧
      (∀ bn ∈ rest, relevantLogs cfg c bn ≠ []) ∧
      (s.calls ≤ N → Follows cfg abi answers c s.ix s.db)) (fun bn rest => ?_)
    (blockNums (sortLogs logs))) (fun s hs => ⟨hs.1, hs.2.1, fun bn hbn => ?_, fun _ => hs.2.2⟩)
    (fun _ _ hs => hs) fun _ hs => hs) fun _ => ?_
  · rintro s ⟨hfilling, hkeyed, hnil, hfollows⟩
    obtain ⟨hnext, hbn⟩ := hfilling.above bn List.mem_cons_self
    have hown : (sortLogs logs).filter (fun l => l.blockNumber = bn) = relevantLogs cfg c bn :=
      hlogs bn (Nat.le_trans hfilling.started hnext) hbn
    rw [hown]
    have hblock := processBlockBy_follows (w := w) hnet hsees htop habi hanswers herror s
      ⟨hfilling, hkeyed, hnil bn List.mem_cons_self, hfollows⟩
    exact ⟨fun a t ht => ⟨(hblock.1 a t ht).1, (hblock.1 a t ht).2.1,
      fun n hn => hnil n (List.mem_cons_of_mem bn hn), (hblock.1 a t ht).2.2⟩, fun _ _ _ => True.intro⟩
  · obtain ⟨l, hl, rfl⟩ := mem_blockNums.mp hbn
    have hfrom := (hs.1.above l.blockNumber hbn)
    have hstart := hs.1.started
    rw [← hlogs l.blockNumber (by omega) hfrom.2]
    exact List.ne_nil_of_mem (mem_logsOf.mpr ⟨mem_sortLogs.mp hl, rfl⟩)
  · rintro s ⟨hfilling, hkeyed, -, hfollows⟩
    refine ⟨fun _ t hrun hN => ?_, fun _ _ _ => True.intro⟩
    obtain ⟨head, s₁, hheader, htx⟩ := bind_eq_ok.mp hrun
    obtain ⟨⟨hix, hdb⟩, k, hk⟩ := (headerByNumber_triple (P := At s.ix s.db) s ⟨rfl, rfl⟩).1 head s₁ hheader
    rw [hsees.header htop] at hk
    have hle := Nat.le_trans (headerByNumber_grows.le hheader)
      ((inBlockTx_grows (exec_grows _)).le htx)
    obtain ⟨r, hbody, rfl⟩ := inBlockTx_ok htx
    obtain ⟨hix', hrun'⟩ := exec_ok hbody
    have hdb' : r.db = (cursorAt cfg toBlock head).effect s.db := by
      rw [Statement.run] at hrun'
      split at hrun'
      · rw [← hdb]
        exact (Option.some.inj hrun').symm
      · cases hrun'
    dsimp only at hix' ⊢
    rw [hix', hix, hdb']
    have hquiet : Quiet cfg c (nextBlock cfg s.db) (toBlock + 1) := fun l hl hge hlt =>
      List.not_mem_nil (hfilling.left True.intro l hl hge (Nat.le_of_lt_succ hlt))
    exact ⟨⟨⟨c, rfl, hfilling.cursor hk hdeploy⟩, hfilling.genuine, hfilling.batch⟩,
      (hfollows (Nat.le_trans hle hN)).cursor hc hfilling.next hquiet⟩

theorem processRangeBy_follows (hsees : Sees o c top) (htop : toBlock ≤ top) (habi : o.abi = abi)
    (hanswers : ∀ k a m, o.answer k a m = answers a m)
    (herror : ∀ k e, o.error k = some e → N ≤ k + 1)
    (hchecked : Checked True cfg {c} c s.ix s.db) (hkeyed : Keyed s.ix)
    (hfollows : Follows cfg abi answers c s.ix s.db) (hrange : nextBlock cfg s.db ≤ toBlock)
    (hrun : processRangeBy cfg o w (nextBlock cfg s.db) toBlock s = (.ok (), t)) (hN : t.calls ≤ N) :
    Held True cfg {c} t.ix t.db ∧ Follows cfg abi answers c t.ix t.db := by
  obtain ⟨result, s₁, hfetch, hrest⟩ := bind_eq_ok.mp hrun
  have hattempt := ((Triple.attempt (fetchLogsBy_triple (P := At s.ix s.db)
    fun k n hn => hsees k n (Nat.le_trans hn htop)) : Triple _ _ _ fun _ => True) s ⟨rfl, rfl⟩).1 result
      s₁ hfetch
  rcases result with e | logs
  · obtain ⟨hix, hdb⟩ := hattempt.2 e rfl
    obtain ⟨r, s₂, hget, hrest⟩ := bind_eq_ok.mp hrest
    cases hget
    by_cases hsmall : rangeTooLarge e ∧ 1 < s₁.ix.batchSize
    · rw [if_pos hsmall] at hrest
      cases hrest
      have hbatch := hchecked.batch
      dsimp only
      rw [hix] at hsmall
      rw [hix, hdb]
      exact ⟨⟨⟨c, rfl, hchecked.indexed⟩, hchecked.genuine, by dsimp only; omega⟩, hfollows.content,
        hfollows.pairs, hfollows.tokens⟩
    · rw [if_neg hsmall] at hrest
      cases hrest
  · obtain ⟨⟨hix, hdb⟩, known, hperm, rfl⟩ := hattempt.1 logs rfl
    rw [hix] at hperm
    have hfilling := hchecked.filling hnet rfl hrange
    rw [blockNums_congr fun l => (mem_fetched_perm hperm l).symm] at hfilling
    have hindex := indexLogsBy_follows (w := w) hnet hsees htop
      (Nat.le_trans hchecked.indexed.deployed hrange) habi hanswers herror
      (fun bn hfrom hto => logsOf_fetched hnet hchecked hperm hfrom hto) s₁
    refine (hindex ⟨?_, ?_, ?_⟩).1 () t hrest hN
    · rw [hix, hdb]
      exact hfilling
    · rw [hix]
      exact hkeyed
    · rw [hix, hdb]
      exact hfollows

theorem advanceBy_follows {safe : Nat} (hsees : Sees o c top) (hsafe : safe ≤ top)
    (habi : o.abi = abi) (hanswers : ∀ k a m, o.answer k a m = answers a m)
    (herror : ∀ k e, o.error k = some e → N ≤ k + 1)
    (hchecked : Checked True cfg {c} c s.ix s.db) (hfollows : Follows cfg abi answers c s.ix s.db)
    (hrun : advanceBy cfg o w safe s = (.ok (), t)) (hN : t.calls ≤ N) :
    Held True cfg {c} t.ix t.db ∧ Follows cfg abi answers c t.ix t.db := by
  obtain ⟨fromBlock, s₁, hstart, hrest⟩ := bind_eq_ok.mp hrun
  obtain ⟨⟨hix, hdb⟩, hfrom⟩ := (startBlock_triple (P := At s.ix s.db) s ⟨rfl, rfl⟩).1 fromBlock s₁ hstart
  by_cases hlt : safe < fromBlock
  · rw [if_pos hlt] at hrest
    cases hrest
    rw [hix, hdb]
    exact ⟨hchecked.held rfl, hfollows⟩
  · rw [if_neg hlt] at hrest
    obtain ⟨r, s₂, hget, hrest⟩ := bind_eq_ok.mp hrest
    cases hget
    rw [← hix, ← hdb] at hchecked hfollows
    subst hfrom
    obtain ⟨hrange, hend⟩ := rangeEnd_bounds hchecked.batch.1 hchecked.fits (Nat.le_of_not_lt hlt)
    have hkeyed : Keyed s₁.ix := fun a p hp => by
      rw [hfollows.pairs] at hp
      exact hchecked.indexed.keys a p hp
    exact processRangeBy_follows hnet hsees (Nat.le_trans hend hsafe) habi hanswers herror hchecked
      hkeyed hfollows hrange hrest hN

theorem tickBy_follows (hsees : Sees o c top)
    (hsafe : safeBlock cfg (o.chain 0).headNumber ≤ top)
    (htop : ∀ st, db.indexerState[cfg.chainID]? = some st → st.lastProcessedBlock ≤ top)
    (habi : o.abi = abi) (hanswers : ∀ k a m, o.answer k a m = answers a m)
    (hheld : Held True cfg {c} ix db) (hfollows : Follows cfg abi answers c ix db)
    (hfits : Fits cfg ix db) (hrun : tickBy cfg o w ⟨ix, db, 0⟩ = (.ok (), t))
    (herror : ∀ k e, o.error k = some e → t.calls ≤ k + 1) :
    Held True cfg {c} t.ix t.db ∧ Follows cfg abi answers c t.ix t.db := by
  obtain ⟨head, s₁, hhead, hrest⟩ := bind_eq_ok.mp hrun
  obtain ⟨⟨hix, hdb⟩, rfl⟩ := (blockNumber_first ix db _ rfl).1 head s₁ hhead
  obtain ⟨_, s₂, hcheck, hadvance⟩ := bind_eq_ok.mp hrest
  obtain ⟨g, hg, hindexed⟩ := hheld.indexed
  obtain rfl : g = c := hg
  obtain ⟨hix₂, hdb₂⟩ := (checkReorg_same hsees hindexed htop s₁ ⟨hix, hdb⟩).1 () s₂ hcheck
  have hchecked : Checked True cfg {g} g s₂.ix s₂.db := by
    rw [hix₂, hdb₂]
    refine ⟨hindexed, hheld.genuine, hheld.batch, fun _ a p hp => ?_, hfits⟩
    rw [hfollows.pairs]
    exact ⟨p, hp⟩
  refine advanceBy_follows hnet hsees hsafe habi hanswers herror hchecked ?_ hadvance (Nat.le_refl _)
  rw [hix₂, hdb₂]
  exact hfollows

end Ranges

/-- The batch size is not part of what an index holds. -/
theorem content_batch (read : Address → Token) (b n : Nat) :
    content { cfg with blockBatchSize := b } read c n = content cfg read c n := by
  induction n with
  | zero => rfl
  | succ n ih =>
    rw [content, content, ih]
    rfl

theorem network_batch (h : Chain.Network cfg {c}) (b : Nat) :
    Chain.Network { cfg with blockBatchSize := b } {c} := by
  have hcreated : ∀ {c' : Chain} {a l ev}, c'.Created { cfg with blockBatchSize := b } a l ev →
      c'.Created cfg a l ev := fun hl => ⟨hl.emits, hl.factory, hl.topic, hl.decoded, hl.pair⟩
  refine ⟨fun c' hc' => ?_, h.distinguishes, fun c₁ hc₁ c₂ hc₂ l hemits hpair htopic => ?_⟩
  · have hc := h.wellFormed c' hc'
    exact ⟨hc.number, hc.blockNumber, hc.blockHash, hc.order, hc.linked, hc.unique, hc.deployed,
      fun a l ev m ev' hl hm => hc.created_once a l ev m ev' (hcreated hl) (hcreated hm)⟩
  · obtain ⟨k, ev, hk⟩ := hpair
    obtain ⟨m, ev', hm, hbefore⟩ := h.created_first c₁ hc₁ c₂ hc₂ l hemits ⟨k, ev, hcreated hk⟩ htopic
    exact ⟨m, ev', ⟨hm.emits, hm.factory, hm.topic, hm.decoded, hm.pair⟩, hbefore⟩

end Indexer

/-- What a process goes through: a Tick, with the orders of its walks, or a
restart. -/
inductive WalkStep where
  | tick (o : Outside) (w : Walks)
  | restart (o : Outside)

namespace Process

open Indexer

variable {cfg : Config} {c : Chain} {abi : ERC20ABI}
variable {answers : Address → Method → Option (List UInt8)} {p : Process}

def stepBy (cfg : Config) (p : Process) : WalkStep → Process
  | .tick o w =>
      match p.memory with
      | none => p
      | some ix =>
          let t := (tickBy cfg o w { ix := ix, db := p.db, calls := 0 }).2
          { memory := some t.ix, db := t.db }
  | .restart o => step cfg p (.restart o)

/-- A Tick on the chain, as far as it reads, that returns; tokens answer as always,
and no call fails but the last one, a query whose range was refused. -/
def ErrorFree (cfg : Config) (c : Chain) (abi : ERC20ABI)
    (answers : Address → Method → Option (List UInt8)) (p : Process) : WalkStep → Prop
  | .tick o w => ∀ ix, p.memory = some ix →
      Sees o c (reach cfg p.db o) ∧ o.abi = abi ∧ (∀ k a m, o.answer k a m = answers a m) ∧
        Fits cfg ix p.db ∧ Returns (tickBy cfg o w)
          (fun _ t => ∀ k e, o.error k = some e → t.calls ≤ k + 1) ⟨ix, p.db, 0⟩
  | .restart _ => True

/-- The index is that of one pass over the chain up to the cursor, in memory too. -/
structure OnCourse (cfg : Config) (abi : ERC20ABI)
    (answers : Address → Method → Option (List UInt8)) (c : Chain) (p : Process) : Prop where
  indexed : Indexed True cfg c p.db
  content : content cfg (readToken cfg abi answers) c (nextBlock cfg p.db) = some p.db.forget
  memory : ∀ ix, p.memory = some ix →
    Indexer.Held True cfg {c} ix p.db ∧ Follows cfg abi answers c ix p.db

theorem OnCourse.initial (hnet : Chain.Network cfg {c}) : OnCourse cfg abi answers c initial := by
  have hnone : ∀ l, c.Relevant cfg l → cfg.factoryDeployBlock ≤ l.blockNumber :=
    fun l hl => hnet.deployed rfl hl
  refine ⟨indexed_empty True cfg c hnone, ?_, fun ix hix => (by cases hix)⟩
  have hnext : nextBlock cfg Database.empty = cfg.factoryDeployBlock := by
    simp [nextBlock, Database.empty]
  change Indexer.content cfg _ c (nextBlock cfg Database.empty) = _
  rw [hnext, content_quiet (hnet.wellFormed c rfl) (Nat.zero_le _) fun l hl _ hlt =>
    Nat.not_lt_of_le (hnone l hl) hlt]
  rfl

theorem OnCourse.restart (hnet : Chain.Network cfg {c}) (hbatch : 0 < cfg.blockBatchSize)
    (h : OnCourse cfg abi answers c p) (o : Outside) :
    OnCourse cfg abi answers c (step cfg p (.restart o)) := by
  rcases step_restart cfg p o with heq | heq
  · rw [heq]
    exact ⟨h.indexed, h.content, fun ix hix => (by cases hix)⟩
  · rw [heq]
    refine ⟨h.indexed, h.content, fun ix hix => ?_⟩
    obtain rfl := Option.some.inj hix
    exact ⟨loaded_held rfl hbatch h.indexed,
      Follows.loaded (hnet.wellFormed c rfl) h.content h.indexed.keys⟩

theorem OnCourse.tick (hnet : Chain.Network cfg {c}) (h : OnCourse cfg abi answers c p)
    {o : Outside} {w : Walks} (hfree : ErrorFree cfg c abi answers p (.tick o w)) :
    OnCourse cfg abi answers c (stepBy cfg p (.tick o w)) := by
  rw [stepBy]
  rcases hm : p.memory with _ | ix
  · exact h
  · obtain ⟨hsees, habi, hanswers, hfits, hreturns⟩ := hfree ix hm
    obtain ⟨_, t, hrun, herror⟩ := returns_iff.mp hreturns
    obtain ⟨hheld, hfollows⟩ := h.memory ix hm
    obtain ⟨hheld', hfollows'⟩ := tickBy_follows hnet hsees (Nat.le_max_right _ _)
      (fun st hst => reach_top hst) habi hanswers hheld hfollows hfits hrun herror
    obtain ⟨g, hg, hindexed⟩ := hheld'.indexed
    obtain rfl : g = c := hg
    simp only [hrun]
    refine ⟨hindexed, hfollows'.content, fun ix' hix' => ?_⟩
    obtain rfl := Option.some.inj hix'
    exact ⟨hheld', hfollows'⟩

theorem run_onCourse (hnet : Chain.Network cfg {c}) (hbatch : 0 < cfg.blockBatchSize)
    {steps : List WalkStep} (h : Run.Along (stepBy cfg) (ErrorFree cfg c abi answers) initial steps) :
    OnCourse cfg abi answers c (Run.run (stepBy cfg) initial steps) := by
  refine Run.run_inv_along (OnCourse cfg abi answers c) (fun p s hp hs => ?_) (OnCourse.initial hnet) h
  cases s with
  | tick o w => exact hp.tick hnet hs
  | restart o => exact hp.restart hnet hbatch o

/-- Error-free runs over one chain to one cursor leave the same tables. -/
theorem index_determined (hnet : Chain.Network cfg {c}) {b : Nat} (hbatch : 0 < cfg.blockBatchSize)
    (hb : 0 < b) {steps steps' : List WalkStep}
    (h : Run.Along (stepBy cfg) (ErrorFree cfg c abi answers) initial steps)
    (h' : Run.Along (stepBy { cfg with blockBatchSize := b })
      (ErrorFree { cfg with blockBatchSize := b } c abi answers) initial steps')
    (hcursor : (Run.run (stepBy cfg) initial steps).db.indexerState[cfg.chainID]?.map
        IndexerState.lastProcessedBlock =
      (Run.run (stepBy { cfg with blockBatchSize := b }) initial steps').db.indexerState[cfg.chainID]?.map
        IndexerState.lastProcessedBlock) :
    (Run.run (stepBy cfg) initial steps).db.forget =
      (Run.run (stepBy { cfg with blockBatchSize := b }) initial steps').db.forget := by
  have hfirst := (run_onCourse hnet hbatch h).content
  have hsecond := (run_onCourse (network_batch hnet b) hb h').content
  rw [content_batch] at hsecond
  have hread : readToken { cfg with blockBatchSize := b } abi answers = readToken cfg abi answers := rfl
  have hnext : nextBlock cfg (Run.run (stepBy cfg) initial steps).db =
      nextBlock { cfg with blockBatchSize := b }
        (Run.run (stepBy { cfg with blockBatchSize := b }) initial steps').db := by
    rw [nextBlock, nextBlock]
    dsimp only
    rcases hst : (Run.run (stepBy cfg) initial steps).db.indexerState[cfg.chainID]? with _ | st
    · rw [hst] at hcursor
      rw [Option.map_eq_none_iff.mp hcursor.symm]
    · rw [hst] at hcursor
      obtain ⟨st', hst', heq⟩ := Option.map_eq_some_iff.mp hcursor.symm
      rw [hst']
      exact congrArg (· + 1) heq.symm
  rw [hread, ← hnext, hfirst] at hsecond
  exact Option.some.inj hsecond

section Fork

open GoInternal.Fork

theorem trading_network : Chain.Network Fork.cfg {trading} :=
  network.subset fun _ hc => hc ▸ trading_mem

/-- Walks in the order of the keys, and against it. -/
def forwards : Walks :=
  { pairs := fun _ entries => entries, tokens := fun _ ts => ts,
    pairs_perm := fun _ _ => List.Perm.refl _, tokens_perm := fun _ _ => List.Perm.refl _ }

def backwards : Walks :=
  { pairs := fun _ entries => entries.reverse, tokens := fun _ ts => ts.reverse,
    pairs_perm := fun _ _ => List.reverse_perm _, tokens_perm := fun _ _ => List.reverse_perm _ }

def calm : Outside := outside (fun _ => trading) []

/-- The node refuses the first query for logs. -/
def refusing : Outside :=
  { calm with error := fun k => if k = 3 then some "limit exceeded" else none }

theorem errorFree_of_returns {o : Outside} {w : Walks} {n : Nat} {p : Process} {cfg : Config}
    (hchain : o.chain = calm.chain) (habi : o.abi = calm.abi) (hanswer : o.answer = calm.answer)
    (herror : ∀ k e, o.error k = some e → n ≤ k + 1)
    (hrun : ∀ ix, p.memory = some ix → Fits cfg ix p.db ∧
      Returns (tickBy cfg o w) (fun _ t => t.calls ≤ n) ⟨ix, p.db, 0⟩) :
    ErrorFree cfg trading calm.abi (fun _ _ => none) p (.tick o w) := by
  intro ix hix
  obtain ⟨hfits, hreturns⟩ := hrun ix hix
  refine ⟨fun k n _ => by rw [hchain]; rfl, habi, fun k a m => by rw [hanswer]; rfl, hfits, ?_⟩
  obtain ⟨a, t, ht, hle⟩ := returns_iff.mp hreturns
  exact returns_iff.mpr ⟨a, t, ht, fun k e he => Nat.le_trans hle (herror k e he)⟩

def inOneBatch : List WalkStep := [.restart calm, .tick calm forwards]

def inTwoBatches : List WalkStep :=
  [.restart calm, .tick refusing backwards, .tick calm backwards, .restart calm, .tick calm backwards]

theorem trading_determined :
    (Run.run (stepBy Fork.cfg) initial inOneBatch).db.forget =
      (Run.run (stepBy { Fork.cfg with blockBatchSize := 2 }) initial inTwoBatches).db.forget := by
  have hcalm : ∀ n k e, calm.error k = some e → n ≤ k + 1 := fun n k e he => (by cases he)
  have hrefusing : ∀ k e, refusing.error k = some e → 4 ≤ k + 1 := by
    intro k e he
    by_cases hk : k = 3
    · omega
    · simp [refusing, hk] at he
  refine index_determined trading_network (by decide) (by decide)
    ⟨True.intro, errorFree_of_returns (n := 100) rfl rfl rfl (hcalm 100) (by decide +kernel), True.intro⟩
    ⟨True.intro, errorFree_of_returns rfl rfl rfl hrefusing (by decide +kernel),
      errorFree_of_returns (n := 100) rfl rfl rfl (hcalm 100) (by decide +kernel), True.intro,
      errorFree_of_returns (n := 100) rfl rfl rfl (hcalm 100) (by decide +kernel), True.intro⟩
    (by decide +kernel)

end Fork

end Process

end ArkSwap.GoInternal
