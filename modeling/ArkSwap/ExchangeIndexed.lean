import ArkSwap.ExchangeReceipts
import ArkSwap.ExchangeRun
import ArkSwap.IndexerReplay

/-! The contracts and the indexer together: the chain records what transactions do to the
exchange, and what the indexer has stored is the state of the contracts. -/

namespace ArkSwap.GoInternal

open Indexer

variable {env : Env} {fees : Prop} {absent : Set Address} {w : World}
  {blocks : List (List (Nat × Transaction env fees absent))}
variable {cfg : Config} {c : Chain} {chains : Set Chain} {a : Address} {l : Log} {n : Nat}
variable {events : List Event} {logs : List Log} {db : Database}

def worldAt (w : World) (blocks : List (List (Nat × Transaction env fees absent))) (n : Nat) :
    World :=
  Exchange.run w (blocks.take n).flatten

/-- The receipts of each block show the events of its transactions. -/
structure Records (w : World) (blocks : List (List (Nat × Transaction env fees absent)))
    (c : Chain) : Prop where
  length : c.length = blocks.length
  shows : ∀ n, Shows env ((worldAt w blocks (n + 1)).logs.drop (worldAt w blocks n).logs.length)
    (c.logsAt n)

/-- What a node promises about any chain it serves. -/
structure Served (cfg : Config) (c : Chain) : Prop where
  number : ∀ n b, c.headerAt n = some b → b.number = n
  blockNumber : ∀ n, ∀ l ∈ c.logsAt n, l.blockNumber = n
  blockHash : ∀ l b, c.Emits l → c.headerAt l.blockNumber = some b → l.blockHash = b.hash
  order : ∀ n, (c.logsAt n).Pairwise fun l m => l.index < m.index
  linked : HashChain.Linked (fun b : MinedBlock => b.header.hash) (fun b => b.header.parentHash) c
  unique : ∀ l m, c.Emits l → c.Emits m → l.txHash = m.txHash → l.index = m.index → l = m
  deployed : ∀ l, c.Emits l → l.address = cfg.factoryAddress → cfg.factoryDeployBlock ≤ l.blockNumber

def Chain.below (c : Chain) (n : Nat) : List Log := (List.range' 0 n).flatMap c.logsAt

theorem mem_below (hblocks : ∀ n, ∀ l ∈ c.logsAt n, l.blockNumber = n) :
    l ∈ c.below n ↔ c.Emits l ∧ l.blockNumber < n := by
  rw [Chain.below, List.mem_flatMap]
  constructor
  · rintro ⟨k, hk, hl⟩
    rw [List.mem_range'_1] at hk
    rw [Chain.Emits, hblocks k l hl]
    exact ⟨hl, by omega⟩
  · rintro ⟨hl, hn⟩
    exact ⟨l.blockNumber, by rw [List.mem_range'_1]; omega, hl⟩

theorem Chain.Emits.below (h : c.Emits l) : l ∈ c.below c.length := by
  obtain ⟨mined, hmined, -⟩ := Chain.mem_logsAt.mp h
  obtain ⟨hlt, -⟩ := List.getElem?_eq_some_iff.mp hmined
  rw [Chain.below, List.mem_flatMap]
  exact ⟨l.blockNumber, by rw [List.mem_range'_1]; omega, h⟩

theorem below_sorted (hblocks : ∀ n, ∀ l ∈ c.logsAt n, l.blockNumber = n)
    (horder : ∀ n, (c.logsAt n).Pairwise fun l m => l.index < m.index) :
    (c.below n).Pairwise Log.Before := by
  refine List.pairwise_flatMap.mpr ⟨fun k _ => ?_, ?_⟩
  · refine (horder k).imp_of_mem fun hl hm hlt => Or.inr ⟨?_, hlt⟩
    rw [hblocks k _ hl, hblocks k _ hm]
  · refine List.Pairwise.imp ?_ List.pairwise_lt_range'
    intro j k hlt l hl m hm
    refine Or.inl ?_
    rw [hblocks j l hl, hblocks k m hm]
    exact hlt

theorem event_of_created (h : Shows env events logs) (hl : l ∈ logs) (haddress : l.address = env.factory)
    (htopic : l.topic = some .pairCreated) {ev : PairCreated} (hev : decodePairCreated l = some ev) :
    Event.pairCreated ev.token0 ev.token1 ev.pair ev.index ∈ events := by
  obtain ⟨e, he, hencodes⟩ := h.mem_right hl fun hforeign => hforeign.1 ⟨haddress, htopic⟩
  have hsame := Option.some.inj (hencodes.topic.symm.trans htopic)
  cases e with
  | pairCreated token0 token1 pair k =>
    obtain rfl := Option.some.inj (hev.symm.trans (decodePairCreated_of hencodes))
    exact he
  | mint => cases hsame
  | burn => cases hsame
  | swap => cases hsame
  | sync => cases hsame

theorem created_of_event (h : Shows env events logs) {e : Event} (he : e ∈ events)
    (ha : e.announced = some a) : ∃ l ∈ logs, l.address = env.factory ∧
      l.topic = some .pairCreated ∧ ∃ ev, decodePairCreated l = some ev ∧ ev.pair = a := by
  obtain ⟨l, hl, hencodes⟩ := h.mem_left he
  cases e with
  | pairCreated token0 token1 pair k =>
    obtain rfl := Option.some.inj ha
    exact ⟨l, hl, hencodes.address, hencodes.topic, _, decodePairCreated_of hencodes, rfl⟩
  | mint => cases ha
  | burn => cases ha
  | swap => cases ha
  | sync => cases ha

/-- A log of a pair stands for an event which that pair emitted. -/
theorem emitter_of_encodes {e : Event} (h : e.Encodes env.factory l) (htopic : Chain.PairTopic l) :
    e.emitter = some l.address := by
  obtain ⟨t, ht, hlt⟩ := htopic
  have hsame := Option.some.inj (h.topic.symm.trans hlt)
  cases e with
  | pairCreated =>
    rw [← hsame] at ht
    exact absurd ht (by simp [Event.topic, pairTopics])
  | mint => exact congrArg some h.address.symm
  | burn => exact congrArg some h.address.symm
  | swap => exact congrArg some h.address.symm
  | sync => exact congrArg some h.address.symm

section Recorded

variable (hs : Grounds env) (hg : Exchange.Genesis env w) (hlogs : w.logs = [])

include hs hg

theorem worldAt_ordered (n : Nat) : Exchange.Ordered env ∅ (worldAt w blocks n) :=
  (Exchange.run_keeps hs hg.ordered _).ordered

theorem worldAt_grows (n : Nat) : (worldAt w blocks n).logs <+: (worldAt w blocks (n + 1)).logs := by
  have hnext : worldAt w blocks (n + 1) =
      Exchange.run (worldAt w blocks n) ((blocks)[n]?.toList).flatten := by
    rw [worldAt, List.take_add_one, List.flatten_append, Exchange.run, Run.run_append]
    rfl
  rw [hnext]
  exact (Exchange.run_keeps hs (worldAt_ordered hs hg n) _).logged.grown

theorem pooled_of_listed (ha : a ∈ (worldAt w blocks n).factory.allPairs) : Pooled env a := by
  have hordered : Exchange.Ordered env ∅ (worldAt w blocks n) := worldAt_ordered hs hg n
  obtain ⟨p, hp, -⟩ := hordered.registry.entry a ha
  exact (hordered.placed a p hp).pooled

include hlogs

theorem worldAt_mirrored (n : Nat) : Exchange.Mirrored (worldAt w blocks n) :=
  (Exchange.run_keeps hs hg.ordered _).logged.mirrored
    (Exchange.mirrored_of_empty hlogs hg.unpaired hg.factory.2)

theorem listed_iff : a ∈ (worldAt w blocks n).factory.allPairs ↔
    ∃ e ∈ (worldAt w blocks n).logs, e.announced = some a := by
  rw [← (worldAt_mirrored hs hg hlogs n).announced, List.mem_filterMap]

theorem listed_of_emitter {e : Event} (he : e ∈ (worldAt w blocks n).logs)
    (ha : e.emitter = some a) : a ∈ (worldAt w blocks n).factory.allPairs := by
  obtain ⟨before, after, hsplit⟩ := List.append_of_mem he
  have hmirrored : Exchange.Mirrored (worldAt w blocks n) := worldAt_mirrored hs hg hlogs n
  have hfirst := hmirrored.first before e after a hsplit ha
  obtain ⟨e', he', ha'⟩ := announced_of_published hfirst
  exact (listed_iff hs hg hlogs).mpr ⟨e', hsplit ▸ List.mem_append_left _ he', ha'⟩

theorem announced_nodup (n : Nat) :
    ((worldAt w blocks n).logs.filterMap Event.announced).Nodup := by
  rw [(worldAt_mirrored hs hg hlogs n).announced]
  exact (worldAt_ordered hs hg n).registry.nodup

/-- The receipts below a height show all that the contracts have logged. -/
theorem shows_below (hrec : Records w blocks c) (n : Nat) :
    Shows env (worldAt w blocks n).logs (c.below n) := by
  induction n with
  | zero =>
    have hempty : (worldAt w blocks 0).logs = [] := hlogs
    rw [hempty]
    exact .nil
  | succ n ih =>
    obtain ⟨more, hmore⟩ : (worldAt w blocks n).logs <+: (worldAt w blocks (n + 1)).logs :=
      worldAt_grows hs hg n
    have hshows := hrec.shows n
    rw [← hmore, List.drop_left] at hshows
    rw [← hmore, Chain.below, List.range'_1_concat, Nat.zero_add, List.flatMap_append,
      List.flatMap_singleton]
    exact ih.append hshows

/-- A chain that records the exchange keeps what the indexer expects of the factory and of
the pairs. -/
theorem network_of_records (hfactory : cfg.factoryAddress = env.factory)
    (hrec : ∀ c ∈ chains,
      ∃ blocks : List (List (Nat × Transaction env fees absent)), Records w blocks c)
    (hserved : ∀ c ∈ chains, Served cfg c)
    (hdist : ∀ c ∈ chains, ∀ c' ∈ chains,
      HashChain.Distinguishes (fun b : MinedBlock => b.header.hash) c c') :
    Chain.Network cfg chains where
  wellFormed c hc := by
    have hsv := hserved c hc
    refine ⟨hsv.number, hsv.blockNumber, hsv.blockHash, hsv.order, hsv.linked, hsv.unique,
      hsv.deployed, ?_⟩
    intro a l ev m ev' hl hm
    obtain ⟨blocks, hblocks⟩ := hrec c hc
    have honce : ((worldAt w blocks c.length).logs.filterMap Event.announced).Nodup :=
      announced_nodup hs hg hlogs c.length
    rw [← (shows_below hs hg hlogs hblocks c.length).announced] at honce
    have hread : ∀ k ev'', c.Created cfg a k ev'' → announcedBy env.factory k = some a := by
      intro k ev'' hk
      rw [announcedBy, if_pos ⟨hk.factory.trans hfactory, hk.topic⟩, hk.decoded, Option.map_some,
        hk.pair]
    exact List.eq_of_nodup_filterMap honce hl.emits.below hm.emits.below (hread l ev hl)
      (hread m ev' hm)
  distinguishes := hdist
  created_first := by
    rintro c hc c' hc' l hl ⟨k, ev, hk⟩ htopic
    obtain ⟨blocks', hblocks'⟩ := hrec c' hc'
    have hpooled : Pooled env l.address := by
      have hevent := event_of_created (shows_below hs hg hlogs hblocks' c'.length) hk.emits.below
        (hk.factory.trans hfactory) hk.topic hk.decoded
      exact pooled_of_listed hs hg ((listed_iff hs hg hlogs).mpr ⟨_, hevent, congrArg some hk.pair⟩)
    obtain ⟨blocks, hblocks⟩ := hrec c hc
    obtain ⟨before, after, hbelow⟩ := List.append_of_mem hl.below
    obtain ⟨events, e, more, hevents, hencodes, hshows⟩ :=
      (shows_below hs hg hlogs hblocks c.length).split hbelow fun hf => hf.2 ⟨hpooled, htopic⟩
    have hfirst := (worldAt_mirrored hs hg hlogs c.length).first events e more l.address hevents
      (emitter_of_encodes hencodes htopic)
    obtain ⟨e', he', ha⟩ := announced_of_published hfirst
    obtain ⟨m, hm, hmfactory, hmtopic, ev', hev', hpair⟩ := created_of_event hshows he' ha
    have hsv := hserved c hc
    have hmem : m ∈ c.below c.length := hbelow ▸ List.mem_append_left _ hm
    refine ⟨m, ev', ⟨((mem_below hsv.blockNumber).mp hmem).1, hmfactory.trans hfactory.symm, hmtopic,
      hev', hpair⟩, ?_⟩
    have hsorted := below_sorted (n := c.length) hsv.blockNumber hsv.order
    rw [hbelow, List.pairwise_append] at hsorted
    exact hsorted.2.2 m hm l List.mem_cons_self

theorem network_of_record (hfactory : cfg.factoryAddress = env.factory) (hrec : Records w blocks c)
    (hserved : Served cfg c)
    (hdist : HashChain.Distinguishes (fun b : MinedBlock => b.header.hash) c c) :
    Chain.Network cfg {c} := by
  have hrecorded : ∀ c' ∈ ({c} : Set Chain),
      ∃ blocks : List (List (Nat × Transaction env fees absent)), Records w blocks c' := by
    rintro _ rfl
    exact ⟨blocks, hrec⟩
  refine network_of_records hs hg hlogs hfactory hrecorded ?_ ?_
  · rintro _ rfl
    exact hserved
  · rintro _ rfl _ rfl
    exact hdist

/-- The pairs on the factory's list are those that the chain has created. -/
theorem listed_iff_created (hfactory : cfg.factoryAddress = env.factory)
    (hblocks : ∀ n, ∀ l ∈ c.logsAt n, l.blockNumber = n) (hrec : Records w blocks c) :
    a ∈ (worldAt w blocks n).factory.allPairs ↔ ∃ k ev, c.Created cfg a k ev ∧ k.blockNumber < n := by
  have hshows := shows_below hs hg hlogs hrec n
  rw [listed_iff hs hg hlogs]
  constructor
  · rintro ⟨e, he, ha⟩
    obtain ⟨k, hk, hkfactory, htopic, ev, hev, hpair⟩ := created_of_event hshows he ha
    obtain ⟨hemits, hlt⟩ := (mem_below hblocks).mp hk
    exact ⟨k, ev, ⟨hemits, hkfactory.trans hfactory.symm, htopic, hev, hpair⟩, hlt⟩
  · rintro ⟨k, ev, hk, hlt⟩
    exact ⟨_, event_of_created hshows ((mem_below hblocks).mpr ⟨hk.emits, hlt⟩)
      (hk.factory.trans hfactory) hk.topic hk.decoded, congrArg some hk.pair⟩

/-- What is read off the logs of the listed pairs is what the events of the pairs say. -/
theorem read_listed {T : Type} {read : Log → Option T} {f : Event → Option T}
    (hrec : Records w blocks c) (htopic : ∀ l, (read l).isSome → Chain.PairTopic l)
    (hread : ∀ (e : Event) l, e.Encodes env.factory l → read l = f e) :
    ((c.below n).filterMap fun l =>
        if l.address ∈ (worldAt w blocks n).factory.allPairs then read l else none) =
      (worldAt w blocks n).logs.filterMap f := by
  refine (shows_below hs hg hlogs hrec n).filterMap_eq (fun e he l hencodes => ?_) fun l hforeign => ?_
  · rcases hsome : read l with _ | x
    · rw [ite_self, ← hread e l hencodes, hsome]
    · have hemitter := emitter_of_encodes hencodes (htopic l (by rw [hsome]; rfl))
      rw [if_pos (listed_of_emitter hs hg hlogs he hemitter), ← hsome, hread e l hencodes]
  · split
    · rename_i hlisted
      by_contra hsome
      exact hforeign.2 ⟨pooled_of_listed hs hg hlisted, htopic l (Option.isSome_iff_ne_none.mpr hsome)⟩
    · rfl

end Recorded

def Pair.listing (p : Pair) : Listing :=
  { token0 := p.token0Address, token1 := p.token1Address, reserve0 := p.reserve0,
    reserve1 := p.reserve1 }

def Swap.event (s : Swap) : Event :=
  .swap s.pairAddress s.sender s.amount0In s.amount1In s.amount0Out s.amount1Out s.recipient

def LiquidityEvent.event (e : LiquidityEvent) : Option Event :=
  match e.eventType, e.sender, e.recipient with
  | .mint, some sender, none => some (.mint e.pairAddress sender e.amount0 e.amount1)
  | .burn, some sender, some dst => some (.burn e.pairAddress sender e.amount0 e.amount1 dst)
  | _, _, _ => none

theorem below_keys (hc : c.WellFormed cfg) :
    ((c.below n).map fun l => (l.txHash, l.index)).Nodup := by
  have hsorted := below_sorted (n := n) hc.blockNumber hc.order
  refine List.pairwise_map.mpr (hsorted.imp_of_mem fun hl hm hbefore hkey => ?_)
  obtain ⟨htx, hindex⟩ := Prod.mk.inj hkey
  obtain rfl := hc.unique _ _ ((mem_below hc.blockNumber).mp hl).1
    ((mem_below hc.blockNumber).mp hm).1 htx hindex
  rcases hbefore with h | h <;> omega

theorem isPair_of_topic (h : c.Relevant cfg l) (htopic : Chain.PairTopic l) :
    c.IsPair cfg l.address := by
  obtain ⟨-, ⟨-, hcreated⟩ | ⟨hpair, -⟩⟩ := h
  · obtain ⟨t, ht, hlt⟩ := htopic
    rw [hcreated] at hlt
    obtain rfl := Option.some.inj hlt
    exact absurd ht (by decide)
  · exact hpair

section Feeds

variable {R T : Type} {feed : Feed (Word × Nat) R} {blockOf : R → Nat} {addressOf : R → Address}
variable {rows : Table (Word × Nat) R} {value : R → T} {read : Log → Option T} {pairs : List Address}

/-- The rows below a height are what the logs of the pairs created there say. -/
theorem Feed.rows_perm (hnet : Chain.Network cfg chains) (hc : c ∈ chains)
    (hf : EventFeed feed blockOf addressOf) (hsound : feed.Sound cfg c (Below n) rows)
    (hcomplete : feed.Complete cfg c (Below n) rows)
    (hread : ∀ b l, read l = (feed.rowOf b l).map value) (hvalue : ∀ r, value (feed.raw r) = value r)
    (hpairs : ∀ a, a ∈ pairs ↔ ∃ k ev, c.Created cfg a k ev ∧ k.blockNumber < n) :
    (rows.rows.map value).Perm
      ((c.below n).filterMap fun l => if l.address ∈ pairs then read l else none) := by
  have hwf := hnet.wellFormed c hc
  have hmem := fun l => mem_below (l := l) (n := n) hwf.blockNumber
  have hkeyed : rows.Keyed feed.keyOf := fun k row hrow => (hsound k row hrow).1
  refine hkeyed.rows_perm (below_keys hwf) (fun row hrow => ?_) fun l hl x hx => ?_
  · obtain ⟨k, hk⟩ := Table.mem_rows.mp hrow
    obtain ⟨-, l, b, hentry, hl⟩ := hsound k row hk
    have htopic := hf.topic b l _ hentry.row
    obtain ⟨m, ev, hm, hbefore⟩ := hnet.created_first c hc c hc l hentry.relevant.1
      (isPair_of_topic hentry.relevant htopic) htopic
    refine ⟨l, (hmem l).mpr ⟨hentry.relevant.1, hl⟩, (hf.key b l row hentry.row).symm, ?_⟩
    rw [if_pos ((hpairs _).mpr ⟨m, ev, hm, Nat.lt_of_le_of_lt (Log.Before.le hbefore) hl⟩),
      hread b, hentry.row, Option.map_some, hvalue]
  · obtain ⟨hemits, hlt⟩ := (hmem l).mp hl
    obtain ⟨b, hb⟩ := hemits.header
    have hlisted : l.address ∈ pairs := by
      by_contra hnot
      rw [if_neg hnot] at hx
      cases hx
    rw [if_pos hlisted, hread b] at hx
    obtain ⟨r, hr, rfl⟩ := Option.map_eq_some_iff.mp hx
    obtain ⟨k, ev, hk, -⟩ := (hpairs _).mp hlisted
    have hentry : feed.Entry cfg c l b r :=
      ⟨⟨hemits, Or.inr ⟨⟨k, ev, hk⟩, hf.topic b l r hr⟩⟩, hb, hr⟩
    obtain ⟨row, hrow⟩ := hcomplete l b r hentry hlt
    have hraw : feed.raw row = r :=
      Option.some.inj ((hf.same_log hwf hsound hentry hrow).symm.trans hr)
    refine ⟨row, Table.mem_rows.mpr ⟨_, hrow⟩, ?_, ?_⟩
    · rw [← hraw] at hr
      exact hf.key b l row hr
    · rw [← hraw, hvalue]

end Feeds

def swapRead (l : Log) : Option Event :=
  if l.topic = some .swap then
    (decodeSwap l).map fun ev => .swap l.address ev.sender ev.amount0In ev.amount1In ev.amount0Out
      ev.amount1Out ev.recipient
  else none

def liquidityRead (l : Log) : Option Event :=
  match l.topic with
  | some .mint => (decodeMint l).map fun ev => .mint l.address ev.sender ev.amount0 ev.amount1
  | some .burn =>
      (decodeBurn l).map fun ev => .burn l.address ev.sender ev.amount0 ev.amount1 ev.recipient
  | _ => none

theorem swapRead_eq (cfg : Config) (b : Block) (l : Log) :
    swapRead l = (swapOf cfg b l).map Swap.event := by
  rw [swapRead, swapOf]
  split
  · rw [Option.map_map]
    rfl
  · rfl

theorem liquidityRead_eq (cfg : Config) (b : Block) (l : Log) :
    (liquidityRead l).map some = (liquidityOf cfg b l).map LiquidityEvent.event := by
  rw [liquidityRead, liquidityOf]
  rcases l.topic with _ | t
  · rfl
  · cases t with
    | mint =>
      dsimp only
      rw [Option.map_map, Option.map_map]
      rfl
    | burn =>
      dsimp only
      rw [Option.map_map, Option.map_map]
      rfl
    | pairCreated => rfl
    | swap => rfl
    | sync => rfl
    | other => rfl

theorem swapRead_topic (h : (swapRead l).isSome) : Chain.PairTopic l := by
  rw [swapRead] at h
  split at h
  · rename_i htopic
    exact ⟨.swap, by decide, htopic⟩
  · cases h

theorem liquidityRead_topic (h : (liquidityRead l).isSome) : Chain.PairTopic l := by
  rw [liquidityRead] at h
  split at h
  · rename_i htopic
    exact ⟨.mint, by decide, htopic⟩
  · rename_i htopic
    exact ⟨.burn, by decide, htopic⟩
  · cases h

theorem swapRead_of {factory : Address} {e : Event} (h : e.Encodes factory l) :
    swapRead l = Option.guard (Event.isSwap ·) e := by
  cases e with
  | swap =>
    have htopic : l.topic = some .swap := h.topic
    rw [swapRead, if_pos htopic, decodeSwap_of h, h.address]
    rfl
  | pairCreated => exact if_neg (h.topic_ne (by simp [Event.topic]))
  | mint => exact if_neg (h.topic_ne (by simp [Event.topic]))
  | burn => exact if_neg (h.topic_ne (by simp [Event.topic]))
  | sync => exact if_neg (h.topic_ne (by simp [Event.topic]))

theorem liquidityRead_of {factory : Address} {e : Event} (h : e.Encodes factory l) :
    liquidityRead l = Option.guard (Event.isLiquidity ·) e := by
  have htopic := h.topic
  have haddress := h.address
  cases e with
  | mint =>
    simp only [Event.topic] at htopic
    rw [liquidityRead, htopic, decodeMint_of h, haddress]
    rfl
  | burn =>
    simp only [Event.topic] at htopic
    rw [liquidityRead, htopic, decodeBurn_of h, haddress]
    rfl
  | pairCreated =>
    simp only [Event.topic] at htopic
    rw [liquidityRead, htopic]
    rfl
  | swap =>
    simp only [Event.topic] at htopic
    rw [liquidityRead, htopic]
    rfl
  | sync =>
    simp only [Event.topic] at htopic
    rw [liquidityRead, htopic]
    rfl

theorem reserves_of_synced {row : Pair} {s : Option (Nat × Nat × Nat)}
    (h : row.state = syncedState s) :
    (s.map fun s => (s.1, s.2.1)).getD (0, 0) = (row.reserve0, row.reserve1) := by
  obtain ⟨h₀, h₁⟩ := Prod.mk.inj h
  obtain ⟨h₁, -⟩ := Prod.mk.inj h₁
  rw [h₀, h₁]
  rcases s with _ | s <;> rfl

/-- The event tables are the Swaps, Mints and Burns that the contracts have logged, each
once. -/
structure Database.Tells (db : Database) (v : World) : Prop where
  swaps : (db.swaps.rows.map Swap.event).Perm (v.logs.filter Event.isSwap)
  liquidityEvents : (db.liquidityEvents.rows.map LiquidityEvent.event).Perm
    ((v.logs.filter Event.isLiquidity).map some)

/-- The database has the contracts' pairs, with their tokens and reserves, and their events. -/
structure Database.Mirrors (db : Database) (v : World) : Prop extends db.Tells v where
  pairs : ∀ a : Address, (db.pairs[a]?).map Pair.listing = (v.pair a).map ArkSwapPair.listing

section Recorded

variable (hs : Grounds env) (hg : Exchange.Genesis env w) (hlogs : w.logs = [])
variable (hfactory : cfg.factoryAddress = env.factory) (hrec : Records w blocks c)

include hs hg hlogs hfactory hrec

theorem tells_of_complete (hnet : Chain.Network cfg chains) (hc : c ∈ chains)
    (hsound : Indexer.Sound cfg c n db) (hcomplete : Complete cfg c (Below n) db) :
    db.Tells (worldAt w blocks n) where
  swaps := by
    have hperm := Feed.rows_perm hnet hc swapFeed_event hsound.swaps hcomplete.swaps
      (swapRead_eq cfg) (fun _ => rfl)
      fun _ => listed_iff_created hs hg hlogs hfactory (hnet.wellFormed c hc).blockNumber hrec
    rwa [read_listed hs hg hlogs hrec (fun _ => swapRead_topic) fun _ _ => swapRead_of,
      List.filterMap_eq_filter] at hperm
  liquidityEvents := by
    have hperm := Feed.rows_perm hnet hc liquidityFeed_event hsound.liquidityEvents
      hcomplete.liquidityEvents (liquidityRead_eq cfg) (fun _ => rfl)
      fun _ => listed_iff_created hs hg hlogs hfactory (hnet.wellFormed c hc).blockNumber hrec
    have hread : ∀ (e : Event) l, e.Encodes env.factory l →
        (liquidityRead l).map some = (Option.guard (Event.isLiquidity ·) e).map some :=
      fun e l h => by rw [liquidityRead_of h]
    rwa [read_listed hs hg hlogs hrec
      (fun _ h => liquidityRead_topic (by rwa [Option.isSome_map] at h)) hread,
      ← List.map_filterMap, List.filterMap_eq_filter] at hperm

theorem listing_of_indexed (hnet : Chain.Network cfg {c}) (hsound : Indexer.Sound cfg c n db)
    (h : IndexedBelow cfg c n db) (a : Address) :
    (db.pairs[a]?).map Pair.listing = ((worldAt w blocks n).pair a).map ArkSwapPair.listing := by
  have hmirrored : Exchange.Mirrored (worldAt w blocks n) := worldAt_mirrored hs hg hlogs n
  have hshows := shows_below hs hg hlogs hrec n
  have hmem := fun l => mem_below (l := l) (n := n) (hnet.wellFormed c rfl).blockNumber
  have hpublished := congrFun hmirrored.published a
  rw [← hpublished]
  rcases hrow : db.pairs[a]? with _ | row
  · refine (Option.not_isSome_iff_eq_none.mp fun hsome => ?_).symm
    obtain ⟨e, he, ha⟩ := announced_of_published hsome
    obtain ⟨l, hl, hlfactory, htopic, ev, hev, rfl⟩ := created_of_event hshows he ha
    obtain ⟨hemits, hlt⟩ := (hmem l).mp hl
    obtain ⟨b, hb⟩ := hemits.header
    have hentry : pairFeed.Entry cfg c l b (createdPair b l ev) :=
      ⟨⟨hemits, Or.inl ⟨hlfactory.trans hfactory.symm, htopic⟩⟩, hb,
        pairOf_eq_some.mpr ⟨htopic, ev, hev, rfl⟩⟩
    obtain ⟨row, hget⟩ := h.complete.pairs l b _ hentry hlt
    cases hrow.symm.trans hget
  · obtain ⟨hkey, l, b, hentry, hlt⟩ := hsound.pairs a row hrow
    obtain ⟨htopic, ev, hev, hraw⟩ := pairOf_eq_some.mp hentry.row
    have hcreated := hentry.relevant.created htopic hev
    have hpair : ev.pair = a := (congrArg Pair.address hraw).trans hkey
    have hevent := event_of_created hshows ((hmem l).mpr ⟨hentry.relevant.1, hlt⟩)
      (hcreated.factory.trans hfactory) htopic hev
    rw [hpair] at hevent
    obtain ⟨lst, hlst⟩ := Option.isSome_iff_exists.mp (published_of_announced hevent rfl)
    have honce : ((worldAt w blocks n).logs.filterMap Event.announced).Nodup :=
      announced_nodup hs hg hlogs n
    obtain ⟨⟨k, hk⟩, hsynced⟩ := published_eq_some hmirrored.first honce hlst
    have hsame := List.eq_of_nodup_filterMap honce hevent hk rfl rfl
    obtain ⟨h₀, h₁, -, -⟩ := Event.pairCreated.inj hsame
    have hlisted : a ∈ (worldAt w blocks n).factory.allPairs :=
      (listed_iff hs hg hlogs).mpr ⟨_, hevent, rfl⟩
    have hpooled : Pooled env a := pooled_of_listed hs hg hlisted
    have hreserves : (row.reserve0, row.reserve1) = (lst.reserve0, lst.reserve1) := by
      rw [← hsynced, ← hshows.lastOf hpooled, ← reserves_of_synced (h.synced a row hrow)]
      rfl
    obtain ⟨hr₀, hr₁⟩ := Prod.mk.inj hreserves
    have ht₀ : ev.token0 = row.token0Address := congrArg Pair.token0Address hraw
    have ht₁ : ev.token1 = row.token1Address := congrArg Pair.token1Address hraw
    rw [hlst, Option.map_some, Pair.listing, ← ht₀, ← ht₁, h₀, h₁, hr₀, hr₁]

end Recorded

end ArkSwap.GoInternal
