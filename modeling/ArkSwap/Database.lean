import ArkSwap.Lib.Table
import ArkSwap.TokenText

/-! The schema and the statements of the store. A statement is what the schema
allows it to do: where a constraint fails it is refused and changes nothing. -/

namespace ArkSwap.GoInternal

/-- The unique key of an event row, and the row as it is stored. -/
def Swap.key (s : Swap) : Word × Nat := (s.txHash, s.logIndex)

def Swap.stored (s : Swap) : Swap := { s with amountUSD := numPtr s.amountUSD }

def LiquidityEvent.key (e : LiquidityEvent) : Word × Nat := (e.txHash, e.logIndex)

def LiquidityEvent.stored (e : LiquidityEvent) : LiquidityEvent :=
  { e with amountUSD := numPtr e.amountUSD }

def PairSnapshot.key (s : PairSnapshot) : Address × Nat × Nat :=
  (s.pairAddress, s.bucketSeconds, s.timestampBucket)

def PairSnapshot.stored (s : PairSnapshot) : PairSnapshot :=
  { s with token0PriceUSD := numPtr s.token0PriceUSD
           token1PriceUSD := numPtr s.token1PriceUSD
           tvlUSD := numPtr s.tvlUSD }

instance instTransOrdEventKey : Std.TransOrd (Word × Nat) := inferInstance

instance instTransOrdSnapshotKey : Std.TransOrd (Address × Nat × Nat) := inferInstance

structure Database where
  indexerState : Table Nat IndexerState
  blocks : Table Nat Block
  tokens : Table Address Token
  pairs : Table Address Pair
  swaps : Table (Word × Nat) Swap
  liquidityEvents : Table (Word × Nat) LiquidityEvent
  pairSnapshots : Table (Address × Nat × Nat) PairSnapshot

def Database.empty : Database :=
  { indexerState := ∅, blocks := ∅, tokens := ∅, pairs := ∅, swaps := ∅, liquidityEvents := ∅,
    pairSnapshots := ∅ }

/-- What was traded in a trailing period; swaps without a figure are counted apart. -/
structure Window where
  volumeUSD : ℚ
  txCount : Nat
  unpriced : Nat
  deriving DecidableEq

structure Statement where
  allowed : Database → Bool
  effect : Database → Database
  reason : String

namespace Database

/-- `BIGINT` of an unsigned value. -/
def bigint (v : Nat) : Bool := v < 2 ^ 63

/-- `INTEGER` of an unsigned value. -/
def integer (v : Nat) : Bool := v < 2 ^ 31

/-- `NUMERIC(78, 0)`. -/
def numeric78 (v : Nat) : Bool := v < 10 ^ 78

/-- A nullable `NUMERIC(38, 18)`, of a value with 18 decimals. -/
def numeric38 (v : Option ℚ) : Bool := v.all fun r => |r| < 10 ^ 20

/-- A nullable `TEXT`. -/
def text (s : Option (List UInt8)) : Bool := s.all fun s => validString s && !s.contains 0

def setIndexerState (st : IndexerState) : Statement where
  allowed _ := bigint st.chainID && bigint st.lastProcessedBlock
  effect db := { db with indexerState := db.indexerState.insert st.chainID st }
  reason := "database: writing indexer state"

def insertBlock (b : Block) : Statement where
  allowed _ := bigint b.number && bigint b.timestamp
  effect db := { db with blocks := db.blocks.insert b.number b }
  reason := "database: inserting block"

/-- The row left where a token meets a stored one: good metadata is kept. -/
def mergeToken (row tok : Token) : Token :=
  { row with symbol := tok.symbol.or row.symbol
             name := tok.name.or row.name
             decimals := tok.decimals.or row.decimals
             metadataComplete := row.metadataComplete || tok.metadataComplete
             isStable := row.isStable || tok.isStable
             isWKASH := row.isWKASH || tok.isWKASH }

def upsertedToken (stored : Option Token) (tok : Token) : Token :=
  match stored with
  | none => { tok with isWhitelisted := false }
  | some row => mergeToken row tok

-- Every written token has an address. Curation is never written by the indexer.
def upsertToken (tok : Token) : Statement where
  allowed _ := text tok.symbol && text tok.name && tok.decimals.all fun d => d ≤ 77
  effect db :=
    match tok.address with
    | none => db
    | some address =>
        { db with tokens := db.tokens.insert address (upsertedToken db.tokens[address]? tok) }
  reason := "database: upserting token"

-- The checks are made on the proposed row, also where it meets a stored one;
-- the references only of a row that is inserted.
def upsertPair (p : Pair) : Statement where
  allowed db :=
    numeric78 p.reserve0 && numeric78 p.reserve1 && numeric78 p.totalSupply &&
      bigint p.createdBlock && integer p.createdLogIndex && bigint p.createdTimestamp &&
      decide (p.token0Address < p.token1Address) &&
      (db.pairs.contains p.address ||
        db.tokens.contains p.token0Address && db.tokens.contains p.token1Address)
  effect db :=
    { db with pairs := db.pairs.insertIfNew p.address { p with lastSyncBlock := none } }
  reason := "database: upserting pair"

def setReserves (r0 r1 block : Nat) (p : Pair) : Pair :=
  { p with reserve0 := r0, reserve1 := r1, lastSyncBlock := some block }

-- The guard keeps an older block from overwriting a newer one.
def setPairReserves (pair : Address) (r0 r1 block : Nat) : Statement where
  allowed _ := numeric78 r0 && numeric78 r1 && bigint block
  effect db :=
    { db with pairs := db.pairs.modify pair fun p =>
        if p.lastSyncBlock.all (· ≤ block) then setReserves r0 r1 block p else p }
  reason := "database: setting reserves"

def upsertPairSnapshot (snap : PairSnapshot) : Statement where
  allowed db :=
    (snap.bucketSeconds == bucketHour || snap.bucketSeconds == bucketDay) &&
      bigint snap.timestampBucket && numeric78 snap.reserve0 && numeric78 snap.reserve1 &&
      numeric38 (numPtr snap.token0PriceUSD) && numeric38 (numPtr snap.token1PriceUSD) &&
      numeric38 (numPtr snap.tvlUSD) && db.pairs.contains snap.pairAddress
  effect db :=
    { db with pairSnapshots := db.pairSnapshots.insert snap.key snap.stored }
  reason := "database: snapshotting"

def insertSwap (s : Swap) : Statement where
  allowed db :=
    bigint s.chainID && integer s.logIndex && bigint s.blockNumber && bigint s.timestamp &&
      numeric78 s.amount0In && numeric78 s.amount1In && numeric78 s.amount0Out &&
      numeric78 s.amount1Out && s.amountIn.all numeric78 && s.amountOut.all numeric78 &&
      numeric38 (numPtr s.amountUSD) &&
      (db.swaps.contains s.key || db.pairs.contains s.pairAddress)
  effect db :=
    { db with swaps := db.swaps.insertIfNew s.key s.stored }
  reason := "database: inserting swap"

def insertLiquidityEvent (e : LiquidityEvent) : Statement where
  allowed db :=
    bigint e.chainID && integer e.logIndex && bigint e.blockNumber && bigint e.timestamp &&
      numeric78 e.amount0 && numeric78 e.amount1 && numeric38 (numPtr e.amountUSD) &&
      (db.liquidityEvents.contains e.key || db.pairs.contains e.pairAddress)
  effect db :=
    { db with liquidityEvents := db.liquidityEvents.insertIfNew e.key e.stored }
  reason := "database: inserting liquidity event"

/-- The timestamp of the earliest stored block from a height on. -/
def cutoff (db : Database) (block : Nat) : Option Nat :=
  (((db.blocks.rows).filter fun b => block ≤ b.number).map Block.timestamp).min?

/-- Deleting pairs takes their events and snapshots along. -/
def deletePairs (db : Database) (gone : Pair → Bool) : Database :=
  let left := db.pairs.deleteWhere fun _ p => gone p
  let orphaned := fun pair => db.pairs.contains pair && !left.contains pair
  { db with pairs := left
            swaps := db.swaps.deleteWhere fun _ s => orphaned s.pairAddress
            liquidityEvents := db.liquidityEvents.deleteWhere fun _ e => orphaned e.pairAddress
            pairSnapshots := db.pairSnapshots.deleteWhere fun _ s => orphaned s.pairAddress }

def rollbackStatement (block : Nat) (effect : Database → Database) : Statement where
  allowed _ := bigint block
  effect := effect
  reason := "database: rolling back"

/-- Every bucket from that of the earliest orphaned block on goes, for all pairs. -/
def dropSnapshots (block : Nat) : Statement where
  allowed _ := bigint block
  effect db :=
    { db with pairSnapshots := db.pairSnapshots.deleteWhere fun _ s =>
        (db.cutoff block).any fun ts => floorBucket ts s.bucketSeconds ≤ s.timestampBucket }
  reason := "database: dropping snapshots"

def pruneSnapshots : Statement where
  allowed _ := true
  effect db :=
    { db with pairSnapshots :=
        db.pairSnapshots.deleteWhere fun _ s => !db.pairs.contains s.pairAddress }
  reason := "database: pruning snapshots"

-- The fourth deletion is of `token_prices`, which nothing fills.
def rollbackFrom (block : Nat) : List Statement :=
  [dropSnapshots block,
   rollbackStatement block fun db =>
     { db with swaps := db.swaps.deleteWhere fun _ s => block ≤ s.blockNumber },
   rollbackStatement block fun db =>
     { db with liquidityEvents := db.liquidityEvents.deleteWhere fun _ e => block ≤ e.blockNumber },
   rollbackStatement block id,
   rollbackStatement block fun db => db.deletePairs fun p => block ≤ p.createdBlock,
   rollbackStatement block fun db =>
     { db with blocks := db.blocks.deleteWhere fun number _ => block ≤ number },
   pruneSnapshots]

/-- A sum over no figures is read as zero. -/
def sumUSD (swaps : List Swap) : ℚ := (swaps.filterMap Swap.amountUSD).sum

/-- Swaps from a time on, of one pair if it is given. -/
def volumeSince (db : Database) (since : Int) (pair : Option Address) : Window :=
  let swaps := db.swaps.rows.filter fun s => since ≤ s.timestamp ∧ pair.all (· = s.pairAddress)
  { volumeUSD := sumUSD swaps, txCount := swaps.length,
    unpriced := (swaps.filter fun s => s.amountUSD.isNone).length }

/-- The volume and the number of swaps of a pair in one bucket of its chart. -/
def bucketVolume (db : Database) (pair : Address) (bucketSeconds : Nat) (since : Int) (bucket : Nat) :
    ℚ × Nat :=
  let swaps := db.swaps.rows.filter fun s =>
    s.pairAddress = pair ∧ since ≤ s.timestamp ∧ s.timestamp / bucketSeconds * bucketSeconds = bucket
  (sumUSD swaps, swaps.length)

def swapsTotal (db : Database) (pair account : Option Address) : Nat :=
  (db.swaps.rows.filter fun s => pair.all (· = s.pairAddress) ∧
    account.all fun a => s.sender = a ∨ s.recipient = a).length

def liquidityTotal (db : Database) (pair : Address) : Nat :=
  (db.liquidityEvents.rows.filter fun e => e.pairAddress = pair).length

def blockHash (db : Database) (number : Nat) : Option Word := db.blocks[number]?.map Block.hash

end Database

end ArkSwap.GoInternal
