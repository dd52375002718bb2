import ArkSwap.IndexerRun
import ArkSwap.NetworkCheck

/-! The token records in memory and the rows of the tokens table. The table
merges what a token answers with what it answered before; memory takes the
last answer, and values swaps, liquidity and snapshots by it. -/

namespace ArkSwap.GoInternal

open Prog

/-- All of a record that the indexer writes. -/
def Token.uncurated (t : Token) : Token := { t with isWhitelisted := false }

def Pool.uncurated (p : Pool) : Pool :=
  { p with token0 := p.token0.uncurated, token1 := p.token1.uncurated }

def Engine.uncurated (e : Engine) : Engine := { e with pools := e.pools.map Pool.uncurated }

section Curation

variable {t u : Token} {e e' : Engine}

theorem isStable_congr (h : t.uncurated = u.uncurated) : t.isStable = u.isStable := by
  have hstable := congrArg Token.isStable h
  exact hstable

theorem decimals_congr (h : t.uncurated = u.uncurated) : t.decimals = u.decimals := by
  have hdecimals := congrArg Token.decimals h
  exact hdecimals

theorem counterpart_uncurated (p : Pool) (a : Option Address) :
    counterpart p.uncurated a =
      (counterpart p a).map fun other => (other.1.uncurated, other.2) := by
  rw [counterpart, counterpart]
  by_cases h₀ : a = p.token0.address
  · rw [if_pos h₀, if_pos (show a = p.uncurated.token0.address from h₀)]
    rfl
  · rw [if_neg h₀, if_neg (show ¬a = p.uncurated.token0.address from h₀)]
    by_cases h₁ : a = p.token1.address
    · rw [if_pos h₁, if_pos (show a = p.uncurated.token1.address from h₁)]
      rfl
    · rw [if_neg h₁, if_neg (show ¬a = p.uncurated.token1.address from h₁)]
      rfl

theorem pairTVL_congr {t₀ u₀ t₁ u₁ : Token} (h₀ : t₀.uncurated = u₀.uncurated)
    (h₁ : t₁.uncurated = u₁.uncurated) (reserve0 reserve1 : Nat) (price0 price1 : Option ℚ) :
    pairTVL reserve0 t₀ price0 reserve1 t₁ price1 = pairTVL reserve0 u₀ price0 reserve1 u₁ price1 := by
  unfold pairTVL
  rw [decimals_congr h₀, decimals_congr h₁]

namespace Engine

variable {accepts : Token → Bool} {otherPriceUSD : ℚ} {source : PriceSource}

theorem candidate_uncurated (haccepts : ∀ t : Token, accepts t.uncurated = accepts t) (p : Pool) :
    e.uncurated.candidate t.uncurated accepts otherPriceUSD source p.uncurated =
      e.candidate t accepts otherPriceUSD source p := by
  rw [candidate, candidate, counterpart_uncurated, show t.uncurated.address = t.address from rfl]
  rcases counterpart p t.address with _ | ⟨other, tokenRes, otherRes⟩
  · rfl
  · dsimp only [Option.map_some]
    rw [haccepts]
    rfl

theorem deepest_uncurated (haccepts : ∀ t : Token, accepts t.uncurated = accepts t) :
    e.uncurated.deepest t.uncurated accepts otherPriceUSD source =
      e.deepest t accepts otherPriceUSD source := by
  have hpools : e.uncurated.pools.filterMap (e.uncurated.candidate t.uncurated accepts otherPriceUSD
      source) = e.pools.filterMap (e.candidate t accepts otherPriceUSD source) := by
    rw [show e.uncurated.pools = e.pools.map Pool.uncurated from rfl, List.filterMap_map]
    exact List.filterMap_congr fun p _ => candidate_uncurated haccepts p
  rw [deepest, deepest, hpools]

theorem directStable_uncurated : e.uncurated.directStable t.uncurated = e.directStable t :=
  deepest_uncurated fun _ => rfl

theorem wkashPrice_uncurated : e.uncurated.wkashPrice = e.wkashPrice := by
  have hside : ∀ p : Pool, ([p.uncurated.token0, p.uncurated.token1].findSome? fun side =>
      if side.isWKASH then e.uncurated.directStable side else none) =
        [p.token0, p.token1].findSome? fun side =>
          if side.isWKASH then e.directStable side else none := by
    intro p
    have hone : ∀ side : Token, (if side.uncurated.isWKASH then e.uncurated.directStable side.uncurated
        else none) = if side.isWKASH then e.directStable side else none := by
      intro side
      rw [directStable_uncurated]
      rfl
    simp only [List.findSome?_cons, List.findSome?_nil]
    rw [show p.uncurated.token0 = p.token0.uncurated from rfl,
      show p.uncurated.token1 = p.token1.uncurated from rfl, hone, hone]
  rw [wkashPrice, wkashPrice, show e.uncurated.pools = e.pools.map Pool.uncurated from rfl,
    List.findSome?_map]
  exact congrArg (fun f => e.pools.findSome? f) (funext hside)

theorem priceUSD_uncurated : e.uncurated.priceUSD t.uncurated = e.priceUSD t := by
  rw [priceUSD, priceUSD, viaWKASH, viaWKASH, directStable_uncurated, wkashPrice_uncurated,
    show t.uncurated.isStable = t.isStable from rfl]
  rcases e.wkashPrice with _ | wkashPrice
  · rfl
  · dsimp only
    rw [deepest_uncurated fun _ => rfl]

theorem priceUSD_congr (he : e.uncurated = e'.uncurated) (ht : t.uncurated = u.uncurated) :
    e.priceUSD t = e'.priceUSD u := by
  rw [← priceUSD_uncurated, he, ht, priceUSD_uncurated]

end Engine

theorem sortPoolsByAddress_uncurated (pools : List Pool) :
    (sortPoolsByAddress pools).map Pool.uncurated = sortPoolsByAddress (pools.map Pool.uncurated) :=
  List.map_insertionSort _ _ _ _ fun _ _ _ _ => Iff.rfl

end Curation

/-- The row that the indexer itself writes of a token. -/
structure Written (cfg : Config) (a : Address) (row : Token) : Prop where
  address : row.address = some a
  isWKASH : row.isWKASH = (some a == some cfg.wkashAddress)
  isStable : row.isStable = cfg.stablecoinAddresses.any fun s => some a == some s
  complete : row.metadataComplete = true →
    row.name.isSome = true ∧ row.symbol.isSome = true ∧ row.decimals.isSome = true

/-- A later answer has all that an earlier one had. -/
def Answered (row tok : Token) : Prop :=
  (row.name.isSome = true → tok.name.isSome = true) ∧
    (row.symbol.isSome = true → tok.symbol.isSome = true) ∧
    (row.decimals.isSome = true → tok.decimals.isSome = true)

instance (row tok : Token) : Decidable (Answered row tok) :=
  inferInstanceAs (Decidable (_ ∧ _ ∧ _))

theorem or_eq_self {α : Type} {x y : Option α} :
    x.or y = x ↔ (y.isSome = true → x.isSome = true) := by
  cases x <;> cases y <;> simp

section Merging

variable {cfg : Config} {abi : ERC20ABI} {a : Address} {row tok : Token}

theorem metadata_written (h : Indexer.Metadata cfg abi tok) (ha : tok.address = some a) :
    Written cfg a tok ∧ ((tok.name.isSome && tok.symbol.isSome && tok.decimals.isSome) =
      tok.metadataComplete) := by
  obtain ⟨address, name, symbol, decimals, rfl⟩ := h
  obtain rfl : address = a := Option.some.inj ha
  refine ⟨⟨rfl, Bool.false_or _, Bool.false_or _, fun hcomplete => ?_⟩, rfl⟩
  have hall : ((stringCall abi name).isSome && (stringCall abi symbol).isSome &&
    (decimalsCall abi decimals).isSome) = true := hcomplete
  rw [Bool.and_eq_true, Bool.and_eq_true] at hall
  exact ⟨hall.1.1, hall.1.2, hall.2⟩

theorem Written.merge (hrow : Written cfg a row) (htok : Written cfg a tok) :
    Written cfg a (Database.mergeToken row tok) := by
  refine ⟨hrow.address, ?_, ?_, fun hcomplete => ?_⟩
  · rw [Database.mergeToken, hrow.isWKASH, htok.isWKASH, Bool.or_self]
  · rw [Database.mergeToken, hrow.isStable, htok.isStable, Bool.or_self]
  · have hor : (row.metadataComplete || tok.metadataComplete) = true := hcomplete
    rw [Database.mergeToken]
    dsimp only
    simp only [Option.isSome_or, Bool.or_eq_true]
    rcases Bool.or_eq_true _ _ ▸ hor with h | h
    · obtain ⟨hname, hsymbol, hdecimals⟩ := hrow.complete h
      exact ⟨Or.inr hname, Or.inr hsymbol, Or.inr hdecimals⟩
    · obtain ⟨hname, hsymbol, hdecimals⟩ := htok.complete h
      exact ⟨Or.inl hname, Or.inl hsymbol, Or.inl hdecimals⟩

/-- The merged row is the fresh record exactly when that lacks nothing. -/
theorem merge_eq_iff (hrow : Written cfg a row) (htok : Indexer.Metadata cfg abi tok)
    (ha : tok.address = some a) :
    (Database.mergeToken row tok).uncurated = tok.uncurated ↔ Answered row tok := by
  obtain ⟨hwritten, hcomplete⟩ := metadata_written htok ha
  constructor
  · intro h
    have hname := congrArg Token.name h
    have hsymbol := congrArg Token.symbol h
    have hdecimals := congrArg Token.decimals h
    exact ⟨or_eq_self.mp hname, or_eq_self.mp hsymbol, or_eq_self.mp hdecimals⟩
  · rintro ⟨hname, hsymbol, hdecimals⟩
    have hmerged : (row.metadataComplete || tok.metadataComplete) = tok.metadataComplete := by
      rcases hr : row.metadataComplete with _ | _
      · exact Bool.false_or _
      · obtain ⟨hrn, hrs, hrd⟩ := hrow.complete hr
        rw [← hcomplete, hname hrn, hsymbol hrs, hdecimals hrd]
        rfl
    have hwkash : (row.isWKASH || tok.isWKASH) = tok.isWKASH := by
      rw [hrow.isWKASH, hwritten.isWKASH, Bool.or_self]
    have hstable : (row.isStable || tok.isStable) = tok.isStable := by
      rw [hrow.isStable, hwritten.isStable, Bool.or_self]
    simp only [Token.uncurated, Database.mergeToken, or_eq_self.mpr hname, or_eq_self.mpr hsymbol,
      or_eq_self.mpr hdecimals, hmerged, hwkash, hstable, hrow.address, ha]

end Merging

namespace Indexer

variable {cfg : Config} {o : Outside} {header : Block} {ix ix' : Indexer} {db db' : Database}
variable {tokens : List Token} {logs : List Log} {number : Nat} {a : Address}

/-- The record fetched for an address, if one was. -/
def recordOf (tokens : List Token) (a : Address) : Option Token :=
  tokens.find? fun t => t.address == some a

theorem recordOf_eq_some {t : Token} (h : recordOf tokens a = some t) :
    t ∈ tokens ∧ t.address = some a :=
  ⟨List.mem_of_find?_eq_some h, by simpa using List.find?_some h⟩

theorem recordOf_of_mem (hdistinct : tokens.Pairwise fun t u => t.address ≠ u.address) {t : Token}
    (ht : t ∈ tokens) (ha : t.address = some a) : recordOf tokens a = some t := by
  induction tokens with
  | nil => simp at ht
  | cons u tokens ih =>
    obtain ⟨hu, hrest⟩ := List.pairwise_cons.mp hdistinct
    rw [recordOf, List.find?_cons]
    rcases List.mem_cons.mp ht with rfl | ht
    · simp [ha]
    · have hne : (u.address == some a) = false := by
        rw [beq_eq_false_iff_ne, ← ha]
        exact hu t ht
      rw [hne]
      exact ih hrest ht

theorem recordOf_cons {t : Token} : recordOf (t :: tokens) a =
    if t.address = some a then some t else recordOf tokens a := by
  rw [recordOf, List.find?_cons]
  by_cases h : t.address = some a
  · rw [if_pos h, beq_iff_eq.mpr h]
  · rw [if_neg h, beq_eq_false_iff_ne.mpr h]
    rfl

theorem recordOf_eq_none {t : Token} (ht : t.address = some a)
    (hdistinct : (t :: tokens).Pairwise fun t u => t.address ≠ u.address) :
    recordOf tokens a = none := by
  rw [recordOf, List.find?_eq_none]
  intro u hu hua
  have hne := (List.pairwise_cons.mp hdistinct).1 u hu
  rw [ht] at hne
  exact hne (beq_iff_eq.mp hua).symm

theorem loadTokens_get (hdistinct : tokens.Pairwise fun t u => t.address ≠ u.address) :
    (ix.loadTokens tokens).knownTokens[a]? = (recordOf tokens a).or ix.knownTokens[a]? := by
  induction tokens generalizing ix with
  | nil => rfl
  | cons t tokens ih =>
    rw [← List.singleton_append, loadTokens_append, ih (List.pairwise_cons.mp hdistinct).2,
      List.singleton_append, recordOf_cons]
    rcases ht : t.address with _ | b
    · rw [if_neg (by simp)]
      simp [loadTokens, ht]
    · have hload : (ix.loadTokens [t]).knownTokens = ix.knownTokens.insert b t := by
        simp [loadTokens, ht]
      rw [hload, Table.get_insert]
      by_cases hab : a = b
      · rw [hab, recordOf_eq_none ht hdistinct, if_pos rfl, if_pos rfl]
        rfl
      · rw [if_neg hab, if_neg fun h => hab (Option.some.inj h).symm]

theorem upsertTokens_get (hdistinct : tokens.Pairwise fun t u => t.address ≠ u.address)
    (hrun : runAll (tokens.map Database.upsertToken) db = some db') :
    db'.tokens[a]? = match recordOf tokens a with
      | some t => some (Database.upsertedToken db.tokens[a]? t)
      | none => db.tokens[a]? := by
  rw [runAll_effect hrun]
  clear hrun
  induction tokens generalizing db with
  | nil => rfl
  | cons t tokens ih =>
    rw [List.map_cons, List.foldl_cons, ih (List.pairwise_cons.mp hdistinct).2, recordOf_cons]
    rcases ht : t.address with _ | b
    · have heffect : (Database.upsertToken t).effect db = db := by
        simp [Database.upsertToken, ht]
      rw [heffect, if_neg (by simp)]
    · have heffect : ((Database.upsertToken t).effect db).tokens =
          db.tokens.insert b (Database.upsertedToken db.tokens[b]? t) := by
        simp [Database.upsertToken, ht]
      rw [heffect, Table.get_insert]
      by_cases hab : a = b
      · rw [hab, recordOf_eq_none ht hdistinct, if_pos rfl, if_pos rfl]
      · rw [if_neg hab, if_neg fun h => hab (Option.some.inj h).symm]

theorem memoryLog_tokens (l : Log) : (memoryLog cfg header ix l).knownTokens = ix.knownTokens := by
  rw [memoryLog]
  rcases ha : applyLog cfg header ix l with _ | ⟨statement, ix₁⟩
  · rfl
  · cases applied_of_applyLog ha <;> rfl

theorem foldl_memoryLog_tokens :
    (logs.foldl (memoryLog cfg header) ix).knownTokens = ix.knownTokens := by
  induction logs generalizing ix with
  | nil => rfl
  | cons l logs ih => exact ih.trans (memoryLog_tokens l)

theorem stepLogs_tokens
    (hfold : logs.foldlM (stepLog cfg header) (ix, db) = some (ix', db')) :
    db'.tokens = db.tokens := by
  refine stepLogs_inv (P := fun _ db' => db'.tokens = db.tokens) (fun l _ ix₁ db₁ _ _ hsame hstep => ?_)
    rfl hfold
  rcases stepLog_cases hstep with ⟨-, -, rfl⟩ | ⟨statement, ha, -, rfl⟩
  · exact hsame
  · cases ha <;> exact hsame

theorem indexBlock_tokens (hdistinct : tokens.Pairwise fun t u => t.address ≠ u.address)
    (hrun : indexBlock cfg header number tokens logs (ix.loadTokens tokens, db) = some (ix', db')) :
    ix'.knownTokens[a]? = (recordOf tokens a).or ix.knownTokens[a]? ∧
      db'.tokens[a]? = match recordOf tokens a with
        | some t => some (Database.upsertedToken db.tokens[a]? t)
        | none => db.tokens[a]? := by
  obtain ⟨db₁, db₂, hopen, hfold, hclose⟩ := indexBlock_eq_some hrun
  refine ⟨?_, ?_⟩
  · rw [indexBlock_memory hrun, foldl_memoryLog_tokens, loadTokens_get hdistinct]
  · have hclosing : db'.tokens = db₂.tokens := by
      refine runAll_inv (P := fun d => d.tokens = db₂.tokens) (fun st hst d hd => ?_) rfl hclose
      rcases List.mem_append.mp hst with hst | hst
      · obtain ⟨snap, -, rfl⟩ := List.mem_map.mp hst
        exact hd
      · rw [List.mem_singleton.mp hst]
        exact hd
    rw [openingStatements, runAll, List.foldlM_cons] at hopen
    obtain ⟨db₀, hblock, htokens⟩ := Option.bind_eq_some_iff.mp hopen
    have hsame : db₀.tokens = db.tokens := by
      rw [Statement.run] at hblock
      split at hblock
      · cases hblock
        rfl
      · cases hblock
    rw [hclosing, stepLogs_tokens hfold, upsertTokens_get hdistinct htokens, hsame]

/-- Memory has the record of the table, its curation apart. -/
def SameRecord (ix : Indexer) (db : Database) (a : Address) : Prop :=
  ix.knownTokens[a]?.map Token.uncurated = db.tokens[a]?.map Token.uncurated

def TokensMirror (ix : Indexer) (db : Database) : Prop := ∀ a : Address, SameRecord ix db a

/-- Every row is one that the indexer wrote. -/
def TokensWritten (cfg : Config) (db : Database) : Prop :=
  ∀ (a : Address) row, db.tokens[a]? = some row → Written cfg a row

/-- Two memories value every swap, every deposit and every snapshot alike. -/
structure ValuesAlike (cfg : Config) (ix ix' : Indexer) : Prop where
  swap : ∀ s p, ix.valuedSwap s p = ix'.valuedSwap s p
  liquidity : ∀ e, ix.valuedLiquidity e = ix'.valuedLiquidity e
  snapshots : ∀ header pairs, snapshotPairs cfg header ix pairs = snapshotPairs cfg header ix' pairs

/-- The memory with the tokens that a restart reads. -/
def withLoaded (cfg : Config) (ix : Indexer) (db : Database) : Indexer :=
  { ix with knownTokens := (Process.loaded cfg db).knownTokens }

/-- The token cache mirrors the table, and values as one loaded from it. -/
structure TokensMirrored (cfg : Config) (ix : Indexer) (db : Database) : Prop where
  records : TokensMirror ix db
  values : ValuesAlike cfg ix (withLoaded cfg ix db)

section Values

variable (hpairs : ix.knownPairs = ix'.knownPairs)
variable (htokens : ∀ a, (ix.token a).uncurated = (ix'.token a).uncurated)

include htokens

theorem stableLeg_congr (a : Address) (amount : Nat) :
    stableLeg (ix.token a) amount = stableLeg (ix'.token a) amount := by
  rw [stableLeg, stableLeg, isStable_congr (htokens a), decimals_congr (htokens a)]

theorem swapUSD_congr (s : Swap) : ix.swapUSD s = ix'.swapUSD s := by
  have hleg : ∀ a amount b amount', stableLegUSD (ix.token a) amount (ix.token b) amount' =
      stableLegUSD (ix'.token a) amount (ix'.token b) amount' := by
    intro a amount b amount'
    rw [stableLegUSD, stableLegUSD, stableLeg_congr htokens, stableLeg_congr htokens]
  rw [swapUSD, swapUSD]
  split
  · exact hleg ..
  · rfl

include hpairs

theorem liquidityUSD_congr (pair : Address) (amount0 amount1 : Nat) :
    ix.liquidityUSD pair amount0 amount1 = ix'.liquidityUSD pair amount0 amount1 := by
  rw [liquidityUSD, liquidityUSD, hpairs]
  rcases ix'.knownPairs[pair]? with _ | p
  · rfl
  · dsimp only
    rw [stableLeg_congr htokens, stableLeg_congr htokens]

theorem pricingEngine_congr :
    (pricingEngine cfg ix).uncurated = (pricingEngine cfg ix').uncurated := by
  have hpool : ∀ p, (ix.pool p).uncurated = (ix'.pool p).uncurated := by
    intro p
    rw [pool, pool, Pool.uncurated, Pool.uncurated]
    dsimp only
    rw [htokens, htokens]
  rw [pricingEngine, pricingEngine, Engine.uncurated, Engine.uncurated]
  dsimp only
  rw [sortPoolsByAddress_uncurated, sortPoolsByAddress_uncurated, List.map_map, List.map_map, hpairs]
  congr 2
  exact List.map_congr_left fun p _ => hpool p

theorem snapshot_congr (timestamp : Nat) (a : Address) (p : Pair) (bucket : Nat) :
    snapshot cfg ix timestamp a p bucket = snapshot cfg ix' timestamp a p bucket := by
  have hprice : ∀ b, (pricingEngine cfg ix).priceUSD (ix.token b) =
      (pricingEngine cfg ix').priceUSD (ix'.token b) := fun b =>
    Engine.priceUSD_congr (pricingEngine_congr hpairs htokens) (htokens b)
  rw [snapshot, snapshot, hprice, hprice,
    pairTVL_congr (htokens p.token0Address) (htokens p.token1Address)]

theorem valuesAlike_of_tokens : ValuesAlike cfg ix ix' where
  swap s p := by
    rw [valuedSwap, valuedSwap, swapUSD_congr htokens]
  liquidity e := by
    rw [valuedLiquidity, valuedLiquidity, liquidityUSD_congr hpairs htokens]
  snapshots header pairs := by
    rw [snapshotPairs, snapshotPairs, hpairs]
    refine List.flatMap_congr fun a _ => ?_
    rcases ix'.knownPairs[a]? with _ | p
    · rfl
    · exact List.map_congr_left fun bucket _ => snapshot_congr hpairs htokens _ a p bucket

end Values

theorem loadTokens_insert {rows : List Token} (h : ∀ row ∈ rows, ∃ a, row.address = some a) :
    (ix.loadTokens rows).knownTokens =
      rows.foldl (fun known t => known.insert (t.address.getD 0) t) ix.knownTokens := by
  induction rows generalizing ix with
  | nil => rfl
  | cons row rows ih =>
    obtain ⟨a, ha⟩ := h row List.mem_cons_self
    have hfirst : (ix.loadTokens [row]).knownTokens = ix.knownTokens.insert (row.address.getD 0) row := by
      simp [loadTokens, ha]
    rw [← List.singleton_append, loadTokens_append, ih fun r hr => h r (List.mem_cons_of_mem row hr),
      hfirst]
    rfl

theorem loaded_tokens (hkeys : ∀ (a : Address) row, db.tokens[a]? = some row → row.address = some a) :
    (Process.loaded cfg db).knownTokens = db.tokens := by
  have hrows : ∀ row ∈ db.tokens.rows, ∃ a, row.address = some a := by
    intro row hrow
    obtain ⟨a, ha⟩ := Table.mem_rows.mp hrow
    exact ⟨a, hkeys a row ha⟩
  rw [Process.loaded, loadTokens_insert hrows]
  refine Table.foldl_insert_rows fun a row hrow => ?_
  rw [hkeys a row hrow]
  rfl

theorem TokensMirror.token (h : TokensMirror ix db) (hkeys : ∀ (a : Address) row,
    db.tokens[a]? = some row → row.address = some a) (a : Address) :
    (ix.token a).uncurated = ((withLoaded cfg ix db).token a).uncurated := by
  have hboth : ix.knownTokens[a]?.map Token.uncurated = db.tokens[a]?.map Token.uncurated := h a
  have hloaded : (withLoaded cfg ix db).token a = (db.tokens[a]?).getD Token.zero := by
    rw [Indexer.token, withLoaded, loaded_tokens hkeys]
  rw [hloaded, Indexer.token]
  rcases hi : ix.knownTokens[a]? with _ | t <;> rcases hd : db.tokens[a]? with _ | row
  · rfl
  · simp [hi, hd] at hboth
  · simp [hi, hd] at hboth
  · rw [hi, hd] at hboth
    exact Option.some.inj hboth

theorem mirrored_iff (hwritten : TokensWritten cfg db) :
    TokensMirrored cfg ix db ↔ TokensMirror ix db :=
  ⟨TokensMirrored.records, fun h => ⟨h, valuesAlike_of_tokens rfl
    (h.token fun a row hrow => (hwritten a row hrow).address)⟩⟩

/-- A block that the indexer is given, or a restart on what is stored. -/
inductive CacheStep where
  | block (o : Outside) (number : Nat) (logs : List Log)
  | restart

/-- The indexer, and the tokens of the blocks that have failed since the last commit or restart. -/
structure Cached where
  sys : Sys
  pending : List Address

def cacheStep (cfg : Config) (s : Cached) : CacheStep → Cached
  | .block o number logs =>
      let (result, t) := processBlock cfg o number logs s.sys
      { sys := t, pending := if result.isOk then [] else s.pending ++ createdTokens logs }
  | .restart => { sys := { s.sys with ix := Process.loaded cfg s.sys.db }, pending := [] }

def Commits (cfg : Config) (s : Cached) : CacheStep → Prop
  | .block o number logs => (processBlock cfg o number logs s.sys).1.isOk = true
  | .restart => True

instance commitsDecidable (cfg : Config) (s : Cached) : ∀ i, Decidable (Commits cfg s i)
  | .block o number logs =>
      inferInstanceAs (Decidable ((processBlock cfg o number logs s.sys).1.isOk = true))
  | .restart => .isTrue trivial

/-- Besides the tokens of failed blocks the cache mirrors the table; a block that is committed
leaves none of these. -/
structure Cached.Mirrored (cfg : Config) (s : Cached) : Prop where
  records : ∀ a ∉ s.pending, SameRecord s.sys.ix s.sys.db a
  settled : s.pending = [] → TokensMirrored cfg s.sys.ix s.sys.db

/-- What was once read of a token is read again whenever the token is, in a block that is
committed, and so is every token that a failed block has left otherwise than stored. -/
def Answers (cfg : Config) (s : Cached) : CacheStep → Prop
  | .block o number logs => Commits cfg s (.block o number logs) →
      (∀ header s₁ tokens s₂, headerByNumber o number s.sys = (.ok header, s₁) →
        fetchTokens cfg o (createdTokens logs) [] s₁ = (.ok tokens, s₂) →
        ∀ t ∈ tokens, ∀ a row, t.address = some a → s.sys.db.tokens[a]? = some row → Answered row t) ∧
      ∀ a ∈ s.pending, a ∈ createdTokens logs ∨ SameRecord s.sys.ix s.sys.db a
  | .restart => True

/-- A check that decides it for one block. -/
def answersCheck (cfg : Config) (s : Cached) (o : Outside) (number : Nat) (logs : List Log) : Bool :=
  let fetched := (fetchTokens cfg o (createdTokens logs) [] (headerByNumber o number s.sys).2).1
  s.pending.all (fun a => (createdTokens logs).contains a) &&
    fetched.toOption.all fun tokens => tokens.all fun t => t.address.all fun a =>
      (s.sys.db.tokens[a]?).all fun row => decide (Answered row t)

theorem answers_of_check {s : Cached} (h : answersCheck cfg s o number logs = true) :
    Answers cfg s (.block o number logs) := by
  intro _
  obtain ⟨hpending, hread⟩ := Bool.and_eq_true_iff.mp h
  refine ⟨fun header s₁ tokens s₂ hheader hfetch t ht a row hta hrow => ?_, fun a ha =>
    .inl (List.contains_iff_mem.mp (List.all_eq_true.mp hpending a ha))⟩
  simp only [hheader, hfetch, Except.toOption, Option.all_some, List.all_eq_true] at hread
  have htoken := hread t ht
  rw [hta, Option.all_some, hrow, Option.all_some] at htoken
  exact of_decide_eq_true htoken

section Sequence

variable {s t : Sys}

theorem processBlock_ok (h : processBlock cfg o number logs s = (.ok (), t)) :
    ∃ header s₁ tokens s₂, headerByNumber o number s = (.ok header, s₁) ∧
      fetchTokens cfg o (createdTokens logs) [] s₁ = (.ok tokens, s₂) ∧
      Fetched cfg o.abi (createdTokens logs) tokens ∧
      indexBlock cfg header number tokens logs (s.ix.loadTokens tokens, s.db) = some (t.ix, t.db) := by
  obtain ⟨header, s₁, hheader, hrest⟩ := bind_eq_ok.mp h
  obtain ⟨tokens, s₂, hfetch, htx⟩ := bind_eq_ok.mp hrest
  obtain ⟨hat, -⟩ := (headerByNumber_triple (P := At s.ix s.db) s ⟨rfl, rfl⟩).1 header s₁ hheader
  obtain ⟨hat', hfetched⟩ := (fetchTokens_triple s.ix s.db (createdTokens logs) [] []
    ⟨by simp, by simp, List.Pairwise.nil⟩ s₁ hat).1 tokens s₂ hfetch
  exact ⟨header, s₁, tokens, s₂, hheader, hfetch, hfetched,
    (commitBlock_triple (s.ix.loadTokens tokens) s.db s₂ hat').1 () t htx⟩

theorem indexBlock_written (hwritten : TokensWritten cfg db) {abi : ERC20ABI} {addresses : List Address}
    (hfetched : Fetched cfg abi addresses tokens)
    (hrun : indexBlock cfg header number tokens logs (ix.loadTokens tokens, db) = some (ix', db')) :
    TokensWritten cfg db' := by
  intro a row hrow
  rw [(indexBlock_tokens hfetched.distinct hrun).2] at hrow
  rcases hr : recordOf tokens a with _ | t
  · rw [hr] at hrow
    exact hwritten a row hrow
  · rw [hr] at hrow
    obtain ⟨ht, hta⟩ := recordOf_eq_some hr
    have hfresh := (metadata_written (hfetched.metadata t ht).1 hta).1
    rw [← Option.some.inj hrow]
    rcases hold : db.tokens[a]? with _ | old
    · exact { hfresh with }
    · exact (hwritten a old hold).merge hfresh

/-- Where a block that is written mirrors a token: one that it reads, if what was stored of it
is read again, and any other as before. -/
theorem indexBlock_sameRecord_iff (hwritten : TokensWritten cfg db) {abi : ERC20ABI}
    {addresses : List Address} (hfetched : Fetched cfg abi addresses tokens)
    (hrun : indexBlock cfg header number tokens logs (ix.loadTokens tokens, db) = some (ix', db'))
    (a : Address) :
    SameRecord ix' db' a ↔ (∀ t ∈ tokens, ∀ row, t.address = some a → db.tokens[a]? = some row →
      Answered row t) ∧ (a ∈ addresses ∨ SameRecord ix db a) := by
  obtain ⟨hix, hdb⟩ := indexBlock_tokens (a := a) hfetched.distinct hrun
  rw [SameRecord, hix, hdb]
  rcases hr : recordOf tokens a with _ | t
  · have hunread : ∀ t ∈ tokens, t.address ≠ some a := by
      intro t ht hta
      rw [recordOf_of_mem hfetched.distinct ht hta] at hr
      cases hr
    have hoff : a ∉ addresses := fun ha => by
      obtain ⟨t, ht, hta⟩ := hfetched.covers a ha
      exact hunread t ht hta
    exact ⟨fun h => ⟨fun t ht _ hta => absurd hta (hunread t ht), .inr h⟩,
      fun h => h.2.resolve_left hoff⟩
  · obtain ⟨ht, hta⟩ := recordOf_eq_some hr
    have hread : a ∈ addresses := by
      obtain ⟨b, hb, htb⟩ := (hfetched.metadata t ht).2
      cases hta.symm.trans htb
      exact hb
    have honly : ∀ u ∈ tokens, u.address = some a → u = t := fun u hu hua => by
      have hu' := recordOf_of_mem hfetched.distinct hu hua
      rw [hr] at hu'
      exact (Option.some.inj hu').symm
    rcases hrow : db.tokens[a]? with _ | row
    · exact iff_of_true rfl ⟨fun _ _ _ _ hnone => (by cases hnone), .inl hread⟩
    · have hmerge := merge_eq_iff (hwritten a row hrow) (hfetched.metadata t ht).1 hta
      constructor
      · refine fun h => ⟨fun u hu row' hua hrow' => ?_, .inl hread⟩
        cases Option.some.inj hrow'
        rw [honly u hu hua]
        exact hmerge.mp (Option.some.inj h).symm
      · exact fun h => congrArg some (hmerge.mpr (h.1 t ht row hta rfl)).symm

/-- A block that fails leaves rows that the indexer wrote, and what it had of all tokens but those it reads. -/
theorem processBlock_failed (hwritten : TokensWritten cfg s.db)
    (h : processBlock cfg o number logs s = (.error e, t)) :
    TokensWritten cfg t.db ∧
      ∀ a ∉ createdTokens logs, SameRecord t.ix t.db a ↔ SameRecord s.ix s.db a := by
  have hunread : ∀ {abi : ERC20ABI} {tokens : List Token}, Fetched cfg abi (createdTokens logs) tokens →
      ∀ a ∉ createdTokens logs, recordOf tokens a = none := by
    intro abi tokens hfetched a ha
    rcases hr : recordOf tokens a with _ | t
    · rfl
    · obtain ⟨ht, hta⟩ := recordOf_eq_some hr
      obtain ⟨b, hb, htb⟩ := (hfetched.metadata t ht).2
      cases hta.symm.trans htb
      exact absurd hb ha
  rcases (processBlock_triple s.ix s.db s ⟨rfl, rfl⟩).2 e t h with
    ⟨hix, hdb⟩ | ⟨k, header, tokens, -, hfetched, ⟨hdb, done, -, hix⟩ | hrun⟩
  · rw [hix, hdb]
    exact ⟨hwritten, fun _ _ => Iff.rfl⟩
  · rw [hix, hdb]
    refine ⟨hwritten, fun a ha => ?_⟩
    rw [SameRecord, foldl_memoryLog_tokens, loadTokens_get hfetched.distinct, hunread hfetched a ha,
      Option.none_or]
    exact Iff.rfl
  · refine ⟨indexBlock_written hwritten hfetched hrun, fun a ha => ?_⟩
    obtain ⟨hix, hdb⟩ := indexBlock_tokens (a := a) hfetched.distinct hrun
    rw [SameRecord, hix, hdb, hunread hfetched a ha, Option.none_or]
    exact Iff.rfl

theorem cacheStep_written {s : Cached} (hwritten : TokensWritten cfg s.sys.db) (i : CacheStep) :
    TokensWritten cfg (cacheStep cfg s i).sys.db := by
  cases i with
  | block o number logs =>
    rw [cacheStep]
    rcases hrun : processBlock cfg o number logs s.sys with ⟨e | u, t⟩
    · exact (processBlock_failed hwritten hrun).1
    · obtain ⟨header, s₁, tokens, s₂, -, -, hfetched, hindex⟩ := processBlock_ok hrun
      exact indexBlock_written hwritten hfetched hindex
  | restart => exact hwritten

theorem Cached.mirrored_of_pending_nil {s : Cached} (hwritten : TokensWritten cfg s.sys.db)
    (h : s.pending = []) : s.Mirrored cfg ↔ TokensMirror s.sys.ix s.sys.db := by
  constructor
  · exact fun hm => (hm.settled h).records
  · exact fun hm => ⟨fun a _ => hm a, fun _ => (mirrored_iff hwritten).mpr hm⟩

theorem cacheStep_mirrored_iff {s : Cached} {i : CacheStep} (hwritten : TokensWritten cfg s.sys.db)
    (hmirror : s.Mirrored cfg) : (cacheStep cfg s i).Mirrored cfg ↔ Answers cfg s i := by
  have hnext := cacheStep_written hwritten i
  cases i with
  | block o number logs =>
    rcases hrun : processBlock cfg o number logs s.sys with ⟨e | u, t⟩
    · have hsame := (processBlock_failed hwritten hrun).2
      rw [Answers, Commits, hrun]
      refine iff_of_true ?_ fun h => (by cases h)
      rw [cacheStep, hrun] at hnext ⊢
      have hrecords : ∀ a ∉ s.pending ++ createdTokens logs, SameRecord t.ix t.db a := by
        intro a ha
        rw [List.mem_append, not_or] at ha
        exact (hsame a ha.2).mpr (hmirror.records a ha.1)
      refine ⟨hrecords, fun hnil => (mirrored_iff hnext).mpr fun a => hrecords a ?_⟩
      rw [show s.pending ++ createdTokens logs = [] from hnil]
      exact List.not_mem_nil
    · obtain ⟨header, s₁, tokens, s₂, hheader, hfetch, hfetched, hindex⟩ := processBlock_ok hrun
      have hnil : (cacheStep cfg s (.block o number logs)).pending = [] := by
        rw [cacheStep, hrun]
        rfl
      rw [Cached.mirrored_of_pending_nil hnext hnil]
      have hsys : (cacheStep cfg s (.block o number logs)).sys = t := by
        rw [cacheStep, hrun]
      rw [hsys, Answers, Commits, hrun]
      have hiff := fun a => indexBlock_sameRecord_iff hwritten hfetched hindex a
      constructor
      · refine fun h _ => ⟨fun header' s₁' tokens' s₂' hheader' hfetch' => ?_, fun a _ =>
          ((hiff a).mp (h a)).2⟩
        cases hheader.symm.trans hheader'
        cases hfetch.symm.trans hfetch'
        exact fun u hu a row hua hrow => ((hiff a).mp (h a)).1 u hu row hua hrow
      · intro h a
        obtain ⟨hread, hleft⟩ := h rfl
        refine (hiff a).mpr ⟨fun u hu row hua hrow => hread header s₁ tokens s₂ hheader hfetch u hu a row
          hua hrow, ?_⟩
        by_cases ha : a ∈ s.pending
        · exact hleft a ha
        · exact .inr (hmirror.records a ha)
  | restart =>
    refine iff_of_true ((Cached.mirrored_of_pending_nil hnext rfl).mpr fun a => ?_) True.intro
    rw [SameRecord, cacheStep]
    dsimp only
    rw [loaded_tokens fun a row hrow => (hwritten a row hrow).address]

/-- Over any sequence of blocks, committed or failed, and restarts among them: the cache
mirrors the table after each of them exactly when no later answer lacks what an earlier one
had and no failed block leaves a token behind. -/
theorem run_mirrored_iff {s : Cached} {inputs : List CacheStep} (hwritten : TokensWritten cfg s.sys.db)
    (hmirror : s.Mirrored cfg) :
    (∀ done, done <+: inputs → (Run.run (cacheStep cfg) s done).Mirrored cfg) ↔
      Run.Along (cacheStep cfg) (Answers cfg) s inputs :=
  Run.prefixes_iff_along (fun s => TokensWritten cfg s.sys.db) (Cached.Mirrored cfg)
    (fun _ i hwritten => cacheStep_written hwritten i)
    (fun _ _ hwritten hmirror => cacheStep_mirrored_iff hwritten hmirror) hwritten hmirror

/-- Two pairs with a token in common, created one block after the other. -/
def secondCreated : Log :=
  { address := 7, topic := some .pairCreated, indexed := [2, 3], data := [51, 2], blockNumber := 2,
    txHash := 903, index := 0, blockHash := 302 }

def twoPairs : Chain :=
  Fork.trunk ++ [{ header := { number := 2, hash := 302, parentHash := 101, timestamp := 3000 },
                   logs := [secondCreated] }]

/-- Tokens that answer with these decimals only. -/
def answering (decimals : Option (List UInt8)) : Outside :=
  { abi := { unpackString := fun _ => none, unpackUint8 := List.head? }
    chainID := fun _ => 1
    hasCode := fun _ => true
    chain := fun _ => twoPairs
    answer := fun _ _ method => if method = .decimals then decimals else none
    error := fun _ => none
    lost := fun _ => false }

def started : Sys := { ix := Indexer.new Fork.cfg, db := Database.empty, calls := 0 }

def createdTwice (decimals : Option (List UInt8)) : List CacheStep :=
  [.block (answering (some [18])) 1 [Fork.created], .block (answering decimals) 2 [secondCreated]]

/-- The second block fails at its commit, after a token did not answer, and is tried again. -/
def retried : List CacheStep :=
  [.block (answering (some [18])) 1 [Fork.created],
    .block { answering none with error := fun k => if k = 27 then some "connection reset" else none } 2
      [secondCreated],
    .block (answering (some [18])) 2 [secondCreated]]

theorem started_written : TokensWritten Fork.cfg started.db := by
  intro a row hrow
  simp [started, Database.empty] at hrow

theorem started_mirror : TokensMirror started.ix started.db := fun _ => rfl

theorem retried_mirrored :
    (Run.run (cacheStep Fork.cfg) ⟨started, []⟩ retried).Mirrored Fork.cfg := by
  have hanswers : Run.Along (cacheStep Fork.cfg) (Answers Fork.cfg) ⟨started, []⟩ retried :=
    ⟨answers_of_check (by decide +kernel), fun h => absurd h (by decide +kernel),
      answers_of_check (by decide +kernel), True.intro⟩
  exact (run_mirrored_iff started_written
    ((Cached.mirrored_of_pending_nil started_written rfl).mpr started_mirror)).mpr hanswers _
    List.prefix_rfl

/-- The second answer lacks the decimals that the first one had. -/
theorem createdTwice_not_mirrored :
    TokensWritten Fork.cfg started.db ∧ TokensMirror started.ix started.db ∧
      Run.Along (cacheStep Fork.cfg) (Commits Fork.cfg) ⟨started, []⟩ (createdTwice none) ∧
      let s := (Run.run (cacheStep Fork.cfg) ⟨started, []⟩ (createdTwice none)).sys
      ¬TokensMirror s.ix s.db ∧ ¬ValuesAlike Fork.cfg s.ix (withLoaded Fork.cfg s.ix s.db) := by
  have hrecords :
      let s := (Run.run (cacheStep Fork.cfg) ⟨started, []⟩ (createdTwice none)).sys
      s.ix.knownTokens[(2 : Address)]?.map Token.uncurated ≠
        s.db.tokens[(2 : Address)]?.map Token.uncurated := by
    decide +kernel
  have hvalues :
      let s := (Run.run (cacheStep Fork.cfg) ⟨started, []⟩ (createdTwice none)).sys
      s.ix.liquidityUSD 50 0 5 ≠ (withLoaded Fork.cfg s.ix s.db).liquidityUSD 50 0 5 := by
    decide +kernel
  refine ⟨started_written, started_mirror, by decide +kernel, fun h => hrecords (h 2), fun h => ?_⟩
  have hdeposit := h.liquidity (liquidityRow Fork.cfg
    { number := 2, hash := 302, parentHash := 101, timestamp := 3000 } Fork.traded .mint 9 none 0 5)
  exact hvalues (congrArg LiquidityEvent.amountUSD hdeposit)

end Sequence

end Indexer

end ArkSwap.GoInternal
