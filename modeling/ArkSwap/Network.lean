import ArkSwap.IndexerBlock
import ArkSwap.Lib.HashChain

/-! What the chains of a network promise about the factory's logs and the logs
of its pairs, and which of them the queries of a range return. -/

namespace ArkSwap.GoInternal

/-- One log is earlier on its chain than another. -/
def Log.Before (l m : Log) : Prop :=
  l.blockNumber < m.blockNumber ∨ l.blockNumber = m.blockNumber ∧ l.index < m.index

theorem Log.Before.le {l m : Log} (h : l.Before m) : l.blockNumber ≤ m.blockNumber := by
  rcases h with h | h <;> omega

namespace Chain

variable {cfg : Config} {c c' : Chain} {a : Address} {l m : Log} {n : Nat}

/-- The log stands in the block it names. -/
def Emits (c : Chain) (l : Log) : Prop := l ∈ c.logsAt l.blockNumber

instance : Decidable (c.Emits l) := inferInstanceAs (Decidable (_ ∈ _))

structure Created (cfg : Config) (c : Chain) (a : Address) (l : Log) (ev : PairCreated) : Prop where
  emits : c.Emits l
  factory : l.address = cfg.factoryAddress
  topic : l.topic = some .pairCreated
  decoded : decodePairCreated l = some ev
  pair : ev.pair = a

/-- The factory created the pair at this address at some block of the chain. -/
def IsPair (cfg : Config) (c : Chain) (a : Address) : Prop := ∃ l ev, Created cfg c a l ev

def PairTopic (l : Log) : Prop := ∃ t ∈ Indexer.pairTopics, l.topic = some t

/-- The logs an index is about. -/
def Relevant (cfg : Config) (c : Chain) (l : Log) : Prop :=
  c.Emits l ∧ (l.address = cfg.factoryAddress ∧ l.topic = some .pairCreated ∨
    c.IsPair cfg l.address ∧ PairTopic l)

structure WellFormed (cfg : Config) (c : Chain) : Prop where
  number : ∀ n b, c.headerAt n = some b → b.number = n
  blockNumber : ∀ n, ∀ l ∈ c.logsAt n, l.blockNumber = n
  blockHash : ∀ l b, c.Emits l → c.headerAt l.blockNumber = some b → l.blockHash = b.hash
  order : ∀ n, (c.logsAt n).Pairwise fun l m => l.index < m.index
  linked : HashChain.Linked (fun b : MinedBlock => b.header.hash) (fun b => b.header.parentHash) c
  unique : ∀ l m, c.Emits l → c.Emits m → l.txHash = m.txHash → l.index = m.index → l = m
  deployed : ∀ l, c.Emits l → l.address = cfg.factoryAddress → cfg.factoryDeployBlock ≤ l.blockNumber
  created_once : ∀ a l ev m ev', c.Created cfg a l ev → c.Created cfg a m ev' → l = m

/-- The chains a node may be on. A hash names one block; a pair's address holds
no code, and emits nothing, before the factory has created the pair. -/
structure Network (cfg : Config) (chains : Set Chain) : Prop where
  wellFormed : ∀ c ∈ chains, WellFormed cfg c
  distinguishes : ∀ c ∈ chains, ∀ c' ∈ chains,
    HashChain.Distinguishes (fun b : MinedBlock => b.header.hash) c c'
  created_first : ∀ c ∈ chains, ∀ c' ∈ chains, ∀ l, c.Emits l → c'.IsPair cfg l.address →
    PairTopic l → ∃ m ev, c.Created cfg l.address m ev ∧ m.Before l

theorem headerAt_eq_some {b : Block} :
    c.headerAt n = some b ↔ ∃ mined, (c)[n]? = some mined ∧ mined.header = b := by
  rw [headerAt, Option.map_eq_some_iff]

theorem mem_logsAt : l ∈ c.logsAt n ↔ ∃ mined, (c)[n]? = some mined ∧ l ∈ mined.logs := by
  rw [logsAt]
  rcases (c)[n]? with _ | mined <;> simp

theorem WellFormed.emits (hc : WellFormed cfg c) (h : l ∈ c.logsAt n) : c.Emits l := by
  rw [Emits, hc.blockNumber n l h]
  exact h

theorem Emits.header (h : c.Emits l) : ∃ b, c.headerAt l.blockNumber = some b := by
  obtain ⟨mined, hmined, -⟩ := mem_logsAt.mp h
  exact ⟨mined.header, headerAt_eq_some.mpr ⟨mined, hmined, rfl⟩⟩

theorem Relevant.created {ev : PairCreated} (h : c.Relevant cfg l) (htopic : l.topic = some .pairCreated)
    (hev : decodePairCreated l = some ev) : c.Created cfg ev.pair l ev := by
  refine ⟨h.1, ?_, htopic, hev, rfl⟩
  rcases h.2 with hfactory | ⟨-, t, ht, htopic'⟩
  · exact hfactory.1
  · rw [htopic] at htopic'
    obtain rfl := Option.some.inj htopic'
    exact absurd ht (by decide)

section Agreement

theorem headerAt_congr (h : (c)[n]? = c'[n]?) : c.headerAt n = c'.headerAt n := by
  rw [headerAt, headerAt, h]

theorem filterLogs_congr {fromBlock toBlock : Nat} {addresses : List Address} {topics : List Topic}
    (h : ∀ n ≤ toBlock, (c)[n]? = c'[n]?) :
    c.filterLogs fromBlock toBlock addresses topics =
      c'.filterLogs fromBlock toBlock addresses topics := by
  refine List.flatMap_congr fun n hn => ?_
  rw [List.mem_range'_1] at hn
  rw [logsAt, logsAt, h n (by omega)]

theorem Emits.congr (h : c.Emits l) (hagree : HashChain.Agree c c' l.blockNumber) : c'.Emits l := by
  rw [Emits, logsAt, ← hagree _ (Nat.le_refl _)]
  exact h

theorem Created.congr {ev : PairCreated} (h : c.Created cfg a l ev)
    (hagree : HashChain.Agree c c' l.blockNumber) : c'.Created cfg a l ev :=
  { h with emits := h.emits.congr hagree }

end Agreement

theorem Network.subset {chains chains' : Set Chain} (h : Network cfg chains) (hsub : chains' ⊆ chains) :
    Network cfg chains' where
  wellFormed c hc := h.wellFormed c (hsub hc)
  distinguishes c hc c' hc' := h.distinguishes c (hsub hc) c' (hsub hc')
  created_first c hc c' hc' := h.created_first c (hsub hc) c' (hsub hc')

theorem Network.agree {chains : Set Chain} (hnet : Network cfg chains) (hc : c ∈ chains)
    (hc' : c' ∈ chains) {b b' : Block} (hb : c.headerAt n = some b) (hb' : c'.headerAt n = some b')
    (hh : b.hash = b'.hash) : HashChain.Agree c c' n := by
  obtain ⟨mined, hmined, rfl⟩ := headerAt_eq_some.mp hb
  obtain ⟨mined', hmined', rfl⟩ := headerAt_eq_some.mp hb'
  exact HashChain.agree_of_hash (hnet.wellFormed c hc).linked (hnet.wellFormed c' hc').linked
    (hnet.distinguishes c hc c' hc') hmined hmined' hh

theorem Network.relevant_congr {chains : Set Chain} (hnet : Network cfg chains) (hc : c ∈ chains)
    (h : c.Relevant cfg l) (hagree : HashChain.Agree c c' l.blockNumber) : c'.Relevant cfg l := by
  obtain ⟨hemits, hfactory | ⟨hpair, htopic⟩⟩ := h
  · exact ⟨hemits.congr hagree, Or.inl hfactory⟩
  · obtain ⟨m, ev, hm, hbefore⟩ := hnet.created_first c hc c hc l hemits hpair htopic
    exact ⟨hemits.congr hagree, Or.inr ⟨⟨m, ev, hm.congr (hagree.mono (Log.Before.le hbefore))⟩,
      htopic⟩⟩

/-- Nothing relevant happened before the factory was deployed. -/
theorem Network.deployed {chains : Set Chain} (hnet : Network cfg chains) (hc : c ∈ chains)
    (h : c.Relevant cfg l) : cfg.factoryDeployBlock ≤ l.blockNumber := by
  obtain ⟨hemits, hfactory | ⟨hpair, htopic⟩⟩ := h
  · exact (hnet.wellFormed c hc).deployed l hemits hfactory.1
  · obtain ⟨m, ev, hm, hbefore⟩ := hnet.created_first c hc c hc l hemits hpair htopic
    exact Nat.le_trans ((hnet.wellFormed c hc).deployed m hm.emits hm.factory)
      (Log.Before.le hbefore)

end Chain

end ArkSwap.GoInternal
