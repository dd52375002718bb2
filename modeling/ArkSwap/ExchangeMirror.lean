import ArkSwap.ExchangeIndexed

/-! Whatever calls of the indexer fail, it ends with the state of the contracts; and with
their events, whatever blocks the chain takes back. -/

namespace ArkSwap.GoInternal

open Indexer Exchange

variable {env : Env} {fees : Prop} {absent : Set Address} {w : World}
  {blocks : List (List (Nat × Transaction env fees absent))}
variable {cfg : Config} {c : Chain} {chains : Set Chain} {st : IndexerState} {n : Nat}
variable {steps : List Step}

section Day

open Process

def dayCfg : Config := { Fork.cfg with factoryAddress := siteEnv.factory, wkashAddress := siteEnv.WETH }

def dayHeader (number : Nat) (hash parentHash : Word) : Block :=
  { number := number, hash := hash, parentHash := parentHash, timestamp := 1000 + number }

/-- A transfer of token 4, which is no concern of the index. -/
def transferred : Log :=
  { address := 4, topic := some .other, indexed := [7, 10], data := [4000], blockNumber := 1,
    txHash := 71, index := 0, blockHash := 101 }

def opened (index : Nat) (e : Event) : Log :=
  e.receipt siteEnv.factory (dayHeader 1 101 100) 71 index

/-- The pair is created in block 1. -/
def morning : Chain :=
  [{ header := dayHeader 0 100 0, logs := [] },
    { header := dayHeader 1 101 100
      logs := [transferred, opened 1 (.pairCreated 4 5 10 1), opened 2 (.sync 10 4000 4000),
        opened 3 (.mint 10 2 4000 4000)] }]

/-- A trade of block 2. -/
def noon (hash : Word) (e₀ e₁ : Event) : Chain :=
  morning ++ [{ header := dayHeader 2 hash 101
                logs := [e₀.receipt siteEnv.factory (dayHeader 2 hash 101) (hash + 1) 0,
                  e₁.receipt siteEnv.factory (dayHeader 2 hash 101) (hash + 1) 1] }]

def sold : Chain := noon 202 (.sync 10 5000 3202) (.swap 10 2 1000 0 0 798 8)

/-- The block of another branch, where less was sold. -/
def resold : Chain := noon 302 (.sync 10 4100 3903) (.swap 10 2 100 0 0 97 8)

def selling (amountIn : Nat) : List (List (Nat × Transaction siteEnv False ∅)) :=
  [[], [(2, RouterCall.transaction siteEnv_open siteTrader firstCall.2.2)],
    [(3, RouterCall.transaction siteEnv_open siteTrader
      (.swapExactTokensForTokens amountIn 0 [4, 5] 8 9))]]

/-- What the first deposit logs. -/
def openingEvents : List Event :=
  [.pairCreated 4 5 10 1, .sync 10 4000 4000, .mint 10 2 4000 4000]

theorem worldAt_of_le (h : blocks.length ≤ n) : worldAt w blocks (n + 1) = worldAt w blocks n := by
  rw [worldAt, worldAt, List.take_of_length_le h, List.take_of_length_le (by omega)]

theorem noon_records {amountIn : Nat} {hash : Word} {e₀ e₁ : Event} (hf₀ : e₀.Fits) (hf₁ : e₁.Fits)
    (h₁ : (worldAt siteWorld (selling amountIn) 1).logs = [])
    (h₂ : (worldAt siteWorld (selling amountIn) 2).logs = openingEvents)
    (h₃ : (worldAt siteWorld (selling amountIn) 3).logs = openingEvents ++ [e₀, e₁]) :
    Records siteWorld (selling amountIn) (noon hash e₀ e₁) where
  length := rfl
  shows n := by
    rcases n with _ | _ | _ | n
    · rw [h₁]
      exact .nil
    · have hforeign : Foreign siteEnv transferred :=
        ⟨by decide, fun h => siteEnv_free (by decide) h.1⟩
      rw [h₁, h₂]
      exact .foreign hforeign (.entry (Event.receipt_encodes (by decide))
        (.entry (Event.receipt_encodes (by decide)) (.entry (Event.receipt_encodes (by decide)) .nil)))
    · rw [h₂, h₃]
      exact .entry (Event.receipt_encodes hf₀) (.entry (Event.receipt_encodes hf₁) .nil)
    · have hle : (selling amountIn).length ≤ n + 3 := Nat.le_add_left 3 n
      rw [worldAt_of_le hle, List.drop_length]
      exact .nil

theorem selling_logs :
    ∀ s ∈ [(1000, [.sync 10 5000 3202, .swap 10 2 1000 0 0 798 8]),
      (100, [.sync 10 4100 3903, .swap 10 2 100 0 0 97 8])],
      (worldAt siteWorld (selling s.1) 1).logs = [] ∧
        (worldAt siteWorld (selling s.1) 2).logs = openingEvents ∧
        (worldAt siteWorld (selling s.1) 3).logs = openingEvents ++ s.2 := by
  decide +kernel

theorem sold_records : Records siteWorld (selling 1000) sold := by
  obtain ⟨h₁, h₂, h₃⟩ := selling_logs _ List.mem_cons_self
  exact noon_records (by decide) (by decide) h₁ h₂ h₃

theorem resold_records : Records siteWorld (selling 100) resold := by
  obtain ⟨h₁, h₂, h₃⟩ := selling_logs _ (List.mem_cons_of_mem _ List.mem_cons_self)
  exact noon_records (by decide) (by decide) h₁ h₂ h₃

theorem Served.of_wellFormed (h : c.WellFormed cfg) : Served cfg c :=
  ⟨h.number, h.blockNumber, h.blockHash, h.order, h.linked, h.unique, h.deployed⟩

theorem day_network : Chain.Network dayCfg {c | c ∈ [sold, resold]} :=
  Chain.network_of_check (by decide +kernel)

theorem sold_served : Served dayCfg sold :=
  .of_wellFormed (day_network.wellFormed sold List.mem_cons_self)

/-- A call of the first Tick fails. -/
def working (c : Chain) : List Step :=
  [.restart (outside (fun _ => c) []), .tick (outside (fun _ => c) [12]),
    .tick (outside (fun _ => c) [])]

/-- Block 2 is taken back after it was indexed. -/
def resuming : List Step :=
  [.restart (outside (fun _ => sold) []), .tick (outside (fun _ => sold) []),
    .tick (outside (fun _ => resold) []), .tick (outside (fun _ => resold) [])]

end Day

theorem Process.OnReplay.mirrors {p : Process} (hs : Grounds env) (hg : Exchange.Genesis env w)
    (hlogs : w.logs = []) (hfactory : cfg.factoryAddress = env.factory) (hrec : Records w blocks c)
    (hnet : Chain.Network cfg {c}) (h : OnReplay cfg c initial.db cfg.factoryDeployBlock p)
    (hst : p.db.indexerState[cfg.chainID]? = some st) :
    p.db.Mirrors (worldAt w blocks (st.lastProcessedBlock + 1)) := by
  have hbelow := h.indexedBelow hnet
  have hsound := h.indexed.sound
  rw [nextBlock_of_some hst] at hbelow hsound
  exact ⟨tells_of_complete hs hg hlogs hfactory hrec hnet rfl hsound hbelow.complete,
    listing_of_indexed hs hg hlogs hfactory hrec hnet hsound hbelow⟩

/-- From scratch, whichever of its calls fail and however often it restarts, the indexer
has the pairs, the reserves and the events of the contracts at its cursor. -/
theorem index_mirrors (hs : Grounds env) (hg : Exchange.Genesis env w) (hlogs : w.logs = [])
    (hfactory : cfg.factoryAddress = env.factory) (hrec : Records w blocks c)
    (hserved : Served cfg c)
    (hdist : HashChain.Distinguishes (fun b : MinedBlock => b.header.hash) c c)
    (hbatch : 0 < cfg.blockBatchSize)
    (hpass : Run.Along (Process.step cfg) (Process.Watches cfg c) Process.initial steps)
    (hst : (Run.run (Process.step cfg) Process.initial steps).db.indexerState[cfg.chainID]? = some st) :
    (Run.run (Process.step cfg) Process.initial steps).db.Mirrors
      (worldAt w blocks (st.lastProcessedBlock + 1)) := by
  have hnet := network_of_record hs hg hlogs hfactory hrec hserved hdist
  exact ((Process.onReplay_initial hnet).run hnet hbatch hpass).mirrors hs hg hlogs hfactory hrec hnet
    hst

theorem working_result :
    Run.Along (Process.step dayCfg) (Process.Ready dayCfg) Process.initial (working sold) ∧
      (Run.run (Process.step dayCfg) Process.initial (working sold)).db.indexerState[dayCfg.chainID]? =
        some { chainID := 1, lastProcessedBlock := 2, lastProcessedBlockHash := 202 } ∧
      (Run.run (Process.step dayCfg) Process.initial (working sold)).db.swaps.rows.length = 1 := by
  decide +kernel

theorem working_watches :
    Run.Along (Process.step dayCfg) (Process.Watches dayCfg sold) Process.initial (working sold) := by
  obtain ⟨hready, -, -⟩ := working_result
  exact ⟨True.intro, ⟨Process.sees_steady _ _ _, fun ix hix => (hready.2.1 ix hix).2⟩,
    ⟨Process.sees_steady _ _ _, fun ix hix => (hready.2.2.1 ix hix).2⟩, True.intro⟩

theorem sold_distinguishes :
    HashChain.Distinguishes (fun b : MinedBlock => b.header.hash) sold sold :=
  day_network.distinguishes sold List.mem_cons_self sold List.mem_cons_self

theorem sold_mirrored :
    (Run.run (Process.step dayCfg) Process.initial (working sold)).db.Mirrors
        (worldAt siteWorld (selling 1000) 3) ∧
      (Run.run (Process.step dayCfg) Process.initial (working sold)).db.swaps.rows.length = 1 := by
  obtain ⟨-, hcursor, hswaps⟩ := working_result
  exact ⟨index_mirrors siteEnv_grounds siteWorld_genesis rfl rfl sold_records sold_served
    sold_distinguishes (by decide) working_watches hcursor, hswaps⟩

/-- Also where the chain takes back blocks, and records other transactions in their place,
the events of the index are those of the contracts on the chain under its cursor. -/
theorem index_tells (hs : Grounds env) (hg : Exchange.Genesis env w) (hlogs : w.logs = [])
    (hfactory : cfg.factoryAddress = env.factory)
    (hrec : ∀ c ∈ chains,
      ∃ blocks : List (List (Nat × Transaction env fees absent)), Records w blocks c)
    (hserved : ∀ c ∈ chains, Served cfg c)
    (hdist : ∀ c ∈ chains, ∀ c' ∈ chains,
      HashChain.Distinguishes (fun b : MinedBlock => b.header.hash) c c')
    (hshared : SharedDeployment cfg chains) (hbatch : 0 < cfg.blockBatchSize)
    (hsteady : ∀ s ∈ steps, Process.Steady chains s)
    (hready : Run.Along (Process.step cfg) (Process.Ready cfg) Process.initial steps)
    (hc : c ∈ chains) (hblocks : Records w blocks c)
    (hst : (Run.run (Process.step cfg) Process.initial steps).db.indexerState[cfg.chainID]? = some st)
    {b : Block} (hb : c.headerAt st.lastProcessedBlock = some b)
    (hhash : b.hash = st.lastProcessedBlockHash) :
    (Run.run (Process.step cfg) Process.initial steps).db.Tells
      (worldAt w blocks (st.lastProcessedBlock + 1)) := by
  have hnet := network_of_records hs hg hlogs hfactory hrec hserved hdist
  have hheld : Process.Held True cfg chains (Run.run (Process.step cfg) Process.initial steps) := by
    refine Process.run_held hnet hshared hbatch hc (fun p o hp => ?_) (hready.and hsteady)
    obtain ⟨⟨hchain, hfixed⟩, hready⟩ := hp
    exact ⟨hchain, fun k m _ => by rw [hfixed k], fun _ ix hix => (hready ix hix).1,
      fun ix hix => (hready ix hix).2⟩
  obtain ⟨g, hg', hindexed⟩ := hheld.indexed
  have hmoved := hindexed.move hnet hg' hc hst hb hhash
  have hsound := hmoved.sound
  have hcomplete := hmoved.complete True.intro
  rw [nextBlock_of_some hst] at hsound hcomplete
  exact tells_of_complete hs hg hlogs hfactory hblocks hnet hc hsound hcomplete

theorem resuming_result :
    Run.Along (Process.step dayCfg) (Process.Ready dayCfg) Process.initial resuming ∧
      (Run.run (Process.step dayCfg) Process.initial resuming).db.indexerState[dayCfg.chainID]? =
        some { chainID := 1, lastProcessedBlock := 2, lastProcessedBlockHash := 302 } ∧
      (Run.run (Process.step dayCfg) Process.initial resuming).db.swaps.rows.length = 1 := by
  decide +kernel

theorem resold_told :
    (Run.run (Process.step dayCfg) Process.initial resuming).db.Tells
        (worldAt siteWorld (selling 100) 3) ∧
      (Run.run (Process.step dayCfg) Process.initial resuming).db.swaps.rows.length = 1 := by
  have hmem : resold ∈ {c | c ∈ [sold, resold]} := List.mem_cons_of_mem _ List.mem_cons_self
  obtain ⟨hready, hcursor, hswaps⟩ := resuming_result
  have hrec : ∀ c ∈ {c | c ∈ [sold, resold]},
      ∃ blocks : List (List (Nat × Transaction siteEnv False ∅)), Records siteWorld blocks c := by
    intro c hc
    rcases List.mem_cons.mp hc with rfl | hc
    · exact ⟨_, sold_records⟩
    · obtain rfl := List.mem_singleton.mp hc
      exact ⟨_, resold_records⟩
  have hshared : SharedDeployment dayCfg {c | c ∈ [sold, resold]} := by
    have h : ∀ c ∈ [sold, resold], ∀ c' ∈ [sold, resold],
        ∀ b ∈ c.headerAt dayCfg.factoryDeployBlock, ∀ b' ∈ c'.headerAt dayCfg.factoryDeployBlock,
        b.hash = b'.hash := by decide
    exact fun c hc c' hc' b b' hb hb' => h c hc c' hc' b hb b' hb'
  have hsteady : ∀ s ∈ resuming, Process.Steady {c | c ∈ [sold, resold]} s := by
    intro s hs
    simp only [resuming, List.mem_cons, List.not_mem_nil, or_false] at hs
    rcases hs with rfl | rfl | rfl | rfl
    · exact True.intro
    · exact ⟨List.mem_cons_self, fun _ => rfl⟩
    · exact ⟨hmem, fun _ => rfl⟩
    · exact ⟨hmem, fun _ => rfl⟩
  exact ⟨index_tells siteEnv_grounds siteWorld_genesis rfl rfl hrec
    (fun c hc => .of_wellFormed (day_network.wellFormed c hc)) day_network.distinguishes hshared
    (by decide) hsteady hready hmem resold_records hcursor
    (b := dayHeader 2 302 101) (by decide) rfl, hswaps⟩

end ArkSwap.GoInternal
