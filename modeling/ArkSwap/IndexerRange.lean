import ArkSwap.Network

/-! The logs a range query returns, and the order in which they are processed:
block by block, and in each block by log index. -/

namespace ArkSwap.GoInternal

open Prog

namespace Indexer

variable {cfg : Config} {o : Outside} {c : Chain} {chains : Set Chain}

/-- The answer to the two queries of a range, on one chain. -/
def fetched (cfg : Config) (c : Chain) (known : List Address) (fromBlock toBlock : Nat) : List Log :=
  let factoryLogs := c.filterLogs fromBlock toBlock [cfg.factoryAddress] [.pairCreated]
  factoryLogs ++ c.filterLogs fromBlock toBlock (known ++ announced factoryLogs) pairTopics

section Fetched

variable {known : List Address} {fromBlock toBlock : Nat} {l : Log}

theorem mem_factoryLogs (hc : c.WellFormed cfg) :
    l ∈ c.filterLogs fromBlock toBlock [cfg.factoryAddress] [.pairCreated] ↔
      c.Emits l ∧ fromBlock ≤ l.blockNumber ∧ l.blockNumber ≤ toBlock ∧
        l.address = cfg.factoryAddress ∧ l.topic = some .pairCreated := by
  rw [Chain.mem_filterLogs]
  constructor
  · rintro ⟨⟨n, hfrom, hto, hl⟩, haddress, htopic⟩
    have hn := hc.blockNumber n l hl
    exact ⟨hc.emits hl, by omega, by omega, by simpa using haddress, by simpa using htopic⟩
  · rintro ⟨hemits, hfrom, hto, haddress, htopic⟩
    exact ⟨⟨_, hfrom, hto, hemits⟩, by simpa using haddress, by simpa using htopic⟩

theorem mem_announced {logs : List Log} {a : Address} :
    a ∈ announced logs ↔ ∃ m ∈ logs, ∃ ev, decodePairCreated m = some ev ∧ ev.pair = a := by
  simp [announced, List.mem_filterMap]

theorem mem_announced_factoryLogs (hc : c.WellFormed cfg) {a : Address} :
    a ∈ announced (c.filterLogs fromBlock toBlock [cfg.factoryAddress] [.pairCreated]) ↔
      ∃ m ev, c.Created cfg a m ev ∧ fromBlock ≤ m.blockNumber ∧ m.blockNumber ≤ toBlock := by
  rw [mem_announced]
  constructor
  · rintro ⟨m, hm, ev, hdecoded, hpair⟩
    obtain ⟨hemits, hfrom, hto, haddress, htopic⟩ := (mem_factoryLogs hc).mp hm
    exact ⟨m, ev, ⟨hemits, haddress, htopic, hdecoded, hpair⟩, hfrom, hto⟩
  · rintro ⟨m, ev, hm, hfrom, hto⟩
    exact ⟨m, (mem_factoryLogs hc).mpr ⟨hm.emits, hfrom, hto, hm.factory, hm.topic⟩, ev, hm.decoded,
      hm.pair⟩

theorem mem_fetched (hc : c.WellFormed cfg) :
    l ∈ fetched cfg c known fromBlock toBlock ↔
      c.Emits l ∧ fromBlock ≤ l.blockNumber ∧ l.blockNumber ≤ toBlock ∧
        (l.address = cfg.factoryAddress ∧ l.topic = some .pairCreated ∨
          Chain.PairTopic l ∧ (l.address ∈ known ∨
            ∃ m ev, c.Created cfg l.address m ev ∧ fromBlock ≤ m.blockNumber ∧
              m.blockNumber ≤ toBlock)) := by
  rw [fetched, List.mem_append, mem_factoryLogs hc, Chain.mem_filterLogs, List.mem_append,
    mem_announced_factoryLogs hc]
  constructor
  · rintro (⟨hemits, hfrom, hto, hfactory⟩ | ⟨⟨n, hfrom, hto, hl⟩, haddress, htopic⟩)
    · exact ⟨hemits, hfrom, hto, Or.inl hfactory⟩
    · have hn := hc.blockNumber n l hl
      exact ⟨hc.emits hl, by omega, by omega, Or.inr ⟨htopic, haddress⟩⟩
  · rintro ⟨hemits, hfrom, hto, hfactory | ⟨htopic, haddress⟩⟩
    · exact Or.inl ⟨hemits, hfrom, hto, hfactory⟩
    · exact Or.inr ⟨⟨_, hfrom, hto, hemits⟩, haddress, htopic⟩

/-- A query for addresses that are pairs on some chain returns relevant logs. -/
theorem relevant_of_mem_fetched (hnet : Chain.Network cfg chains) (hc : c ∈ chains)
    (hknown : ∀ a ∈ known, ∃ c' ∈ chains, c'.IsPair cfg a)
    (hl : l ∈ fetched cfg c known fromBlock toBlock) : c.Relevant cfg l := by
  obtain ⟨hemits, -, -, hfactory | ⟨htopic, haddress | ⟨m, ev, hm, -⟩⟩⟩ :=
    (mem_fetched (hnet.wellFormed c hc)).mp hl
  · exact ⟨hemits, Or.inl hfactory⟩
  · obtain ⟨c', hc', hpair⟩ := hknown _ haddress
    obtain ⟨m, ev, hm, -⟩ := hnet.created_first c hc c' hc' l hemits hpair htopic
    exact ⟨hemits, Or.inr ⟨⟨m, ev, hm⟩, htopic⟩⟩
  · exact ⟨hemits, Or.inr ⟨⟨m, ev, hm⟩, htopic⟩⟩

/-- When every pair created before the range is known, nothing is missed. -/
theorem mem_fetched_of_relevant (hnet : Chain.Network cfg chains) (hc : c ∈ chains)
    (hknown : ∀ a m ev, c.Created cfg a m ev → m.blockNumber < fromBlock → a ∈ known)
    (hl : c.Relevant cfg l) (hfrom : fromBlock ≤ l.blockNumber) (hto : l.blockNumber ≤ toBlock) :
    l ∈ fetched cfg c known fromBlock toBlock := by
  obtain ⟨hemits, hfactory | ⟨hpair, htopic⟩⟩ := hl
  · exact (mem_fetched (hnet.wellFormed c hc)).mpr ⟨hemits, hfrom, hto, Or.inl hfactory⟩
  · obtain ⟨m, ev, hm, hbefore⟩ := hnet.created_first c hc c hc l hemits hpair htopic
    have hle := hbefore.le
    refine (mem_fetched (hnet.wellFormed c hc)).mpr ⟨hemits, hfrom, hto, Or.inr ⟨htopic, ?_⟩⟩
    rcases Nat.lt_or_ge m.blockNumber fromBlock with hlt | hge
    · exact Or.inl (hknown l.address m ev hm hlt)
    · exact Or.inr ⟨m, ev, hm, hge, by omega⟩

end Fetched

section Order

variable {logs : List Log} {l m : Log} {bn : Nat}

theorem mem_sortLogs : l ∈ sortLogs logs ↔ l ∈ logs := List.mem_insertionSort _

instance : Std.Total logLE := ⟨fun l m => by
  rw [logLE, logLE]
  omega⟩

instance : IsTrans Log logLE := ⟨fun l m k hlm hmk => by
  rw [logLE] at *
  omega⟩

theorem sortLogs_pairwise (logs : List Log) : (sortLogs logs).Pairwise fun l m => ¬m.Before l := by
  refine List.Pairwise.imp ?_ (List.pairwise_insertionSort logLE logs)
  intro l m h hm
  rcases h with h | h <;> rcases hm with hm | hm <;> omega

theorem mem_blockNums : bn ∈ blockNums logs ↔ ∃ l ∈ logs, l.blockNumber = bn := by
  rw [blockNums, List.mem_insertionSort, List.mem_dedup, List.mem_map]

theorem blockNums_pairwise (logs : List Log) : (blockNums logs).Pairwise (· < ·) := by
  have hsorted := List.pairwise_insertionSort (· ≤ ·) (logs.map Log.blockNumber).dedup
  have hnodup : (blockNums logs).Nodup :=
    (List.perm_insertionSort _ _).nodup_iff.mpr (List.nodup_dedup _)
  exact List.Pairwise.imp₂ (fun a b hle hne => Nat.lt_of_le_of_ne hle hne) hsorted hnodup

/-- The logs of a range that are processed with one block. -/
def logsOf (logs : List Log) (bn : Nat) : List Log :=
  (sortLogs logs).filter fun l => l.blockNumber = bn

theorem mem_logsOf : l ∈ logsOf logs bn ↔ l ∈ logs ∧ l.blockNumber = bn := by
  rw [logsOf, List.mem_filter, mem_sortLogs, decide_eq_true_eq]

theorem logsOf_pairwise (logs : List Log) (bn : Nat) :
    (logsOf logs bn).Pairwise fun l m => ¬m.Before l :=
  List.Pairwise.filter _ (sortLogs_pairwise logs)

end Order

section Fetched

variable {fromBlock toBlock : Nat} (hchain : ∀ k, ∀ n ≤ toBlock, (o.chain k)[n]? = (c)[n]?)
include hchain

/-- The second query of a range, for pairs known and announced. -/
theorem pairLogs_triple {known : List Address} {factoryLogs : List Log}
    (hfactory : factoryLogs = c.filterLogs fromBlock toBlock [cfg.factoryAddress] [.pairCreated]) :
    Triple (On (At ix db))
      (if known ++ announced factoryLogs = [] then pure factoryLogs
        else do
          let pairLogs ← filterLogs o fromBlock toBlock (known ++ announced factoryLogs) pairTopics
          pure (factoryLogs ++ pairLogs))
      (fun logs s => On (At ix db) s ∧ logs = fetched cfg c known fromBlock toBlock)
      (On (At ix db)) := by
  rw [fetched, ← hfactory]
  by_cases hnil : known ++ announced factoryLogs = []
  · rw [if_pos hnil]
    refine Triple.pure fun s hs => ⟨hs, ?_⟩
    rw [hnil]
    simp [Chain.filterLogs]
  · rw [if_neg hnil]
    refine Triple.bind filterLogs_triple fun pairLogs => Triple.pure ?_
    rintro s ⟨hs, k, rfl⟩
    exact ⟨hs, by rw [Chain.filterLogs_congr (hchain k)]⟩

/-- The two queries of a range, with the known pairs as they are taken from memory. -/
theorem queries_triple {P : Indexer → Database → Prop} (known : Sys → List Address) :
    Triple (On P) (do
        let factoryLogs ← filterLogs o fromBlock toBlock [cfg.factoryAddress] [.pairCreated]
        let s ← Prog.get
        if known s ++ announced factoryLogs = [] then pure factoryLogs
        else do
          let pairLogs ← filterLogs o fromBlock toBlock (known s ++ announced factoryLogs) pairTopics
          pure (factoryLogs ++ pairLogs))
      (fun logs => On fun ix db => P ix db ∧ ∃ r : Sys, r.ix = ix ∧
        logs = fetched cfg c (known r) fromBlock toBlock) (On P) := by
  refine Triple.bind filterLogs_triple fun factoryLogs => ?_
  refine Triple.bind (Triple.get (R := fun r s => On (fun ix db => P ix db ∧
    ∃ k, factoryLogs = (o.chain k).filterLogs fromBlock toBlock [cfg.factoryAddress]
      [.pairCreated]) s ∧ r = s) fun _ hs => ⟨hs, rfl⟩) fun r => ?_
  rintro s ⟨⟨hP, k, hfactory⟩, rfl⟩
  rw [Chain.filterLogs_congr (hchain k)] at hfactory
  refine Triple.conseq (pairLogs_triple hchain hfactory) (fun _ hs => hs) ?_ ?_ r ⟨rfl, rfl⟩
  · rintro logs s ⟨⟨hix, hdb⟩, rfl⟩
    rw [On, hix, hdb]
    exact ⟨hP, r, rfl, rfl⟩
  · rintro s ⟨hix, hdb⟩
    rw [On, hix, hdb]
    exact hP

theorem fetchLogs_triple {P : Indexer → Database → Prop} :
    Triple (On P) (fetchLogs cfg o fromBlock toBlock)
      (fun logs => On fun ix db => P ix db ∧
        logs = fetched cfg c (ix.knownPairs.toList.map Prod.fst) fromBlock toBlock) (On P) := by
  refine Triple.conseq (queries_triple hchain fun s => s.ix.knownPairs.toList.map Prod.fst)
    (fun _ hs => hs) ?_ fun _ hs => hs
  rintro logs s ⟨hP, r, hix, rfl⟩
  rw [hix]
  exact ⟨hP, rfl⟩

end Fetched

end Indexer

end ArkSwap.GoInternal
