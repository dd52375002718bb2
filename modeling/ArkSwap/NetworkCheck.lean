import ArkSwap.Network

/-! A check that decides, for a given list of chains, that they are chains of one
network. -/

namespace ArkSwap.GoInternal

namespace Chain

variable {cfg : Config} {c c' : Chain} {cs : List Chain} {a : Address} {l m : Log} {n : Nat}

def logs (c : Chain) : List Log := c.flatMap MinedBlock.logs

/-- The logs that create a pair, each with what it announces. -/
def creations (cfg : Config) (c : Chain) : List (Log × PairCreated) :=
  c.logs.filterMap fun l =>
    if l.address = cfg.factoryAddress ∧ l.topic = some .pairCreated then
      (decodePairCreated l).map fun ev => (l, ev)
    else none

def checkBlock (b : MinedBlock) (n : Nat) : Bool :=
  b.header.number = n &&
    b.logs.all (fun l => l.blockNumber = n && l.blockHash = b.header.hash) &&
    decide (b.logs.Pairwise fun l m => l.index < m.index)

def checkWellFormed (cfg : Config) (c : Chain) : Bool :=
  ((List.range c.length).all fun n => (c)[n]?.all fun b => checkBlock b n &&
    (c)[n + 1]?.all fun b' => b'.header.parentHash = b.header.hash) &&
    (c.logs.all fun l => (c.logs.all fun m => l.txHash = m.txHash → l.index = m.index → l = m) &&
      decide (l.address = cfg.factoryAddress → cfg.factoryDeployBlock ≤ l.blockNumber)) &&
    (c.creations cfg).all fun k => (c.creations cfg).all fun k' =>
      k.2.pair = k'.2.pair → k.1 = k'.1

instance : Decidable (l.Before m) := inferInstanceAs (Decidable (_ ∨ _ ∧ _))

def checkPair (cfg : Config) (c c' : Chain) : Bool :=
  (c.all fun b => c'.all fun b' => b.header.hash = b'.header.hash → b = b') &&
    c.logs.all fun l => (c'.creations cfg).all fun k' => k'.2.pair = l.address →
      (∃ t ∈ Indexer.pairTopics, l.topic = some t) →
        ∃ k ∈ c.creations cfg, k.2.pair = l.address ∧ k.1.Before l

def checkNetwork (cfg : Config) (cs : List Chain) : Bool :=
  cs.all fun c => checkWellFormed cfg c && cs.all fun c' => checkPair cfg c c'

theorem mem_logs : l ∈ c.logs ↔ ∃ (n : Nat) (b : MinedBlock), (c)[n]? = some b ∧ l ∈ b.logs := by
  rw [logs, List.mem_flatMap]
  constructor
  · rintro ⟨b, hb, hl⟩
    obtain ⟨n, hn⟩ := List.mem_iff_getElem?.mp hb
    exact ⟨n, b, hn, hl⟩
  · rintro ⟨n, b, hn, hl⟩
    exact ⟨b, List.mem_of_getElem? hn, hl⟩

theorem Emits.mem_logs (h : c.Emits l) : l ∈ c.logs := by
  obtain ⟨b, hb, hl⟩ := mem_logsAt.mp h
  exact Chain.mem_logs.mpr ⟨_, b, hb, hl⟩

theorem mem_creations {ev : PairCreated} :
    (l, ev) ∈ c.creations cfg ↔ l ∈ c.logs ∧ l.address = cfg.factoryAddress ∧
      l.topic = some .pairCreated ∧ decodePairCreated l = some ev := by
  rw [creations, List.mem_filterMap]
  constructor
  · rintro ⟨m, hm, h⟩
    split at h
    · rename_i hf
      obtain ⟨ev', hev, heq⟩ := Option.map_eq_some_iff.mp h
      cases heq
      exact ⟨hm, hf.1, hf.2, hev⟩
    · cases h
  · rintro ⟨hm, hfactory, htopic, hev⟩
    exact ⟨l, hm, by rw [if_pos ⟨hfactory, htopic⟩, hev, Option.map_some]⟩

theorem Created.mem_creations {ev : PairCreated} (h : c.Created cfg a l ev) :
    (l, ev) ∈ c.creations cfg :=
  Chain.mem_creations.mpr ⟨h.emits.mem_logs, h.factory, h.topic, h.decoded⟩

theorem wellFormed_of_check (h : checkWellFormed cfg c = true) : WellFormed cfg c := by
  simp only [checkWellFormed, Bool.and_eq_true, List.all_eq_true, List.mem_range,
    decide_eq_true_eq] at h
  obtain ⟨⟨hblocks, hlogs⟩, hcreations⟩ := h
  have hblock : ∀ (n : Nat) (b : MinedBlock), (c)[n]? = some b → checkBlock b n = true ∧
      ∀ b' : MinedBlock, (c)[n + 1]? = some b' → b'.header.parentHash = b.header.hash := by
    intro n b hb
    obtain ⟨hlt, -⟩ := List.getElem?_eq_some_iff.mp hb
    have hn := hblocks n hlt
    rw [hb, Option.all_some, Bool.and_eq_true] at hn
    refine ⟨hn.1, fun b' hb' => ?_⟩
    rw [hb', Option.all_some, decide_eq_true_eq] at hn
    exact hn.2
  have hcheck : ∀ (n : Nat) (b : MinedBlock), (c)[n]? = some b → b.header.number = n ∧
      (∀ l ∈ b.logs, l.blockNumber = n ∧ l.blockHash = b.header.hash) ∧
      b.logs.Pairwise fun l m => l.index < m.index := by
    intro n b hb
    have hn := (hblock n b hb).1
    simp only [checkBlock, Bool.and_eq_true, List.all_eq_true, decide_eq_true_eq] at hn
    exact ⟨hn.1.1, hn.1.2, hn.2⟩
  refine ⟨fun n b hb => ?_, fun n l hl => ?_, fun l b hl hb => ?_, fun n => ?_, ?_, ?_, ?_, ?_⟩
  · obtain ⟨mined, hmined, rfl⟩ := headerAt_eq_some.mp hb
    exact (hcheck n mined hmined).1
  · obtain ⟨mined, hmined, hmem⟩ := mem_logsAt.mp hl
    exact ((hcheck n mined hmined).2.1 l hmem).1
  · obtain ⟨mined, hmined, rfl⟩ := headerAt_eq_some.mp hb
    obtain ⟨mined', hmined', hmem⟩ := mem_logsAt.mp hl
    obtain rfl := Option.some.inj (hmined.symm.trans hmined')
    exact ((hcheck _ mined hmined).2.1 l hmem).2
  · rw [logsAt]
    rcases hn : (c)[n]? with _ | mined
    · exact List.Pairwise.nil
    · exact (hcheck n mined hn).2.2
  · exact fun n b b' hb hb' => (hblock n b hb).2 b' hb'
  · exact fun l m hl hm => (hlogs l hl.mem_logs).1 m hm.mem_logs
  · exact fun l hl => (hlogs l hl.mem_logs).2
  · intro a l ev m ev' hl hm
    exact hcreations _ hl.mem_creations _ hm.mem_creations (hl.pair.trans hm.pair.symm)

/-- Chains that pass the check are the chains of a network. -/
theorem network_of_check (h : checkNetwork cfg cs = true) : Network cfg {c | c ∈ cs} := by
  simp only [checkNetwork, Bool.and_eq_true, List.all_eq_true] at h
  have hpair : ∀ c ∈ cs, ∀ c' ∈ cs,
      (∀ b ∈ c, ∀ b' ∈ c', b.header.hash = b'.header.hash → b = b') ∧
        ∀ l ∈ c.logs, ∀ k' ∈ c'.creations cfg, k'.2.pair = l.address → PairTopic l →
          ∃ k ∈ c.creations cfg, k.2.pair = l.address ∧ k.1.Before l := by
    intro c hc c' hc'
    have hcheck := (h c hc).2 c' hc'
    simp only [checkPair, Bool.and_eq_true, List.all_eq_true, decide_eq_true_eq] at hcheck
    exact hcheck
  refine ⟨fun c hc => wellFormed_of_check (h c hc).1, fun c hc c' hc' => (hpair c hc c' hc').1, ?_⟩
  rintro c hc c' hc' l hl ⟨k', ev', hk'⟩ htopic
  have hwf := wellFormed_of_check (h c hc).1
  obtain ⟨⟨k, ev⟩, hk, hka, hkl⟩ :=
    (hpair c hc c' hc').2 l hl.mem_logs _ hk'.mem_creations hk'.pair htopic
  obtain ⟨hmem, hfactory, hktopic, hdecoded⟩ := mem_creations.mp hk
  obtain ⟨n, b, hb, hkb⟩ := mem_logs.mp hmem
  exact ⟨k, ev, ⟨hwf.emits (mem_logsAt.mpr ⟨b, hb, hkb⟩), hfactory, hktopic, hdecoded, hka⟩, hkl⟩

end Chain

/-! Two chains that part above block 1, where the factory and a pair were
created; on one of them the pair trades in block 2. -/

namespace Fork

def cfg : Config :=
  { chainID := 1, factoryAddress := 7, factoryDeployBlock := 1, wkashAddress := 1,
    confirmations := 0, blockBatchSize := 10, minPriceLiquidityUSD := 0, stablecoinAddresses := [2] }

def created : Log :=
  { address := 7, topic := some .pairCreated, indexed := [1, 2], data := [50, 1], blockNumber := 1,
    txHash := 901, index := 0, blockHash := 101 }

def traded : Log :=
  { address := 50, topic := some .swap, indexed := [9, 9], data := [5, 0, 0, 4], blockNumber := 2,
    txHash := 902, index := 0, blockHash := 202 }

def trunk : Chain :=
  [{ header := { number := 0, hash := 100, parentHash := 0, timestamp := 1000 }, logs := [] },
    { header := { number := 1, hash := 101, parentHash := 100, timestamp := 2000 },
      logs := [created] }]

def quiet : Chain :=
  trunk ++ [{ header := { number := 2, hash := 102, parentHash := 101, timestamp := 3000 },
              logs := [] }]

def trading : Chain :=
  trunk ++ [{ header := { number := 2, hash := 202, parentHash := 101, timestamp := 3100 },
              logs := [traded] }]

def chains : Set Chain := {c | c ∈ [quiet, trading]}

theorem network : Chain.Network cfg chains := Chain.network_of_check (by decide +kernel)

theorem quiet_mem : quiet ∈ chains := List.mem_cons_self

theorem trading_mem : trading ∈ chains := List.mem_cons_of_mem _ List.mem_cons_self

end Fork

end ArkSwap.GoInternal
