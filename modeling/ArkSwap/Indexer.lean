import ArkSwap.Contracts
import ArkSwap.Database
import ArkSwap.Lib.Prog
import ArkSwap.Pricing

/-! The indexer: what it keeps in memory, how a log becomes a statement, and
the calls a Tick makes to its node and its database. -/

namespace ArkSwap.GoInternal

structure Config where
  chainID : Nat
  factoryAddress : Address
  factoryDeployBlock : Nat
  wkashAddress : Address
  confirmations : Nat
  blockBatchSize : Nat
  minPriceLiquidityUSD : ℚ
  stablecoinAddresses : List Address

structure Indexer where
  knownPairs : Table Address Pair
  knownTokens : Table Address Token
  batchSize : Nat

/-- What is outside the process, by the number of the call: the chain its node
follows at that moment, what tokens answer, and which calls fail. A commit
that fails may still have been made; then it is `lost`. -/
structure Outside where
  abi : ERC20ABI
  chainID : Nat → Nat
  hasCode : Nat → Bool
  chain : Nat → Chain
  answer : Nat → Address → Method → Option (List UInt8)
  error : Nat → Option String
  lost : Nat → Bool

structure Sys where
  ix : Indexer
  db : Database
  calls : Nat

abbrev Ix := Prog String Sys

namespace Indexer

def new (cfg : Config) : Indexer :=
  { knownPairs := ∅, knownTokens := ∅, batchSize := cfg.blockBatchSize }

def token (ix : Indexer) (address : Address) : Token :=
  (ix.knownTokens[address]?).getD Token.zero

/-- Stablecoins and WKASH are configured, never inferred from text. -/
def applyTokenFlags (cfg : Config) (t : Token) : Token :=
  { t with isWKASH := t.isWKASH || t.address == some cfg.wkashAddress
           isStable := t.isStable || cfg.stablecoinAddresses.any fun s => t.address == some s }

/-- The tokens of the pairs created in a block, in order and with repetitions. -/
def createdTokens (logs : List Log) : List Address :=
  logs.flatMap fun l =>
    if l.topic = some .pairCreated then
      match decodePairCreated l with
      | some ev => [ev.token0, ev.token1]
      | none => []
    else []

/-- Twice the stablecoin side of a deposit or a withdrawal. -/
def liquidityUSD (ix : Indexer) (pair : Address) (amount0 amount1 : Nat) : Option ℚ :=
  match ix.knownPairs[pair]? with
  | none => none
  | some p =>
      match stableLeg (ix.token p.token0Address) amount0 with
      | some side => some (side * 2)
      | none => (stableLeg (ix.token p.token1Address) amount1).map fun side => side * 2

def createdPair (header : Block) (l : Log) (ev : PairCreated) : Pair :=
  { address := ev.pair, token0Address := ev.token0, token1Address := ev.token1, reserve0 := 0,
    reserve1 := 0, totalSupply := 0, createdBlock := l.blockNumber, createdTxHash := l.txHash,
    createdLogIndex := l.index, createdTimestamp := header.timestamp, lastSyncBlock := none }

/-- The value of a swap from its stablecoin leg, at its own amounts. -/
def swapUSD (ix : Indexer) (s : Swap) : Option ℚ :=
  match s.tokenInAddress, s.tokenOutAddress, s.amountIn, s.amountOut with
  | some tokenIn, some tokenOut, some amountIn, some amountOut =>
      stableLegUSD (ix.token tokenIn) amountIn (ix.token tokenOut) amountOut
  | _, _, _, _ => none

def swapRow (cfg : Config) (header : Block) (l : Log) (ev : SwapEvent) : Swap :=
  { chainID := cfg.chainID, txHash := l.txHash, logIndex := l.index, blockNumber := l.blockNumber,
    blockHash := header.hash, timestamp := header.timestamp, pairAddress := l.address,
    sender := ev.sender, recipient := ev.recipient, amount0In := ev.amount0In,
    amount1In := ev.amount1In, amount0Out := ev.amount0Out, amount1Out := ev.amount1Out,
    direction := .unknown, tokenInAddress := none, tokenOutAddress := none, amountIn := none,
    amountOut := none, amountUSD := none }

def valuedSwap (ix : Indexer) (s : Swap) (p : Pair) : Swap :=
  let s := normalizeSwap s p.token0Address p.token1Address
  { s with amountUSD := ix.swapUSD s }

def liquidityRow (cfg : Config) (header : Block) (l : Log) (eventType : LiquidityEventType)
    (sender : Address) (recipient : Option Address) (amount0 amount1 : Nat) : LiquidityEvent :=
  { chainID := cfg.chainID, txHash := l.txHash, logIndex := l.index, blockNumber := l.blockNumber,
    blockHash := header.hash, timestamp := header.timestamp, pairAddress := l.address,
    eventType := eventType, sender := some sender, recipient := recipient, amount0 := amount0,
    amount1 := amount1, amountUSD := none }

def valuedLiquidity (ix : Indexer) (e : LiquidityEvent) : LiquidityEvent :=
  { e with amountUSD := ix.liquidityUSD e.pairAddress e.amount0 e.amount1 }

def addPair (ix : Indexer) (p : Pair) : Indexer :=
  { ix with knownPairs := ix.knownPairs.insert p.address p }

/-- The in-memory copy of a pair follows its Sync, without the guard of the row. -/
def syncPair (ix : Indexer) (pair : Address) (r0 r1 block : Nat) : Indexer :=
  { ix with knownPairs := ix.knownPairs.modify pair (Database.setReserves r0 r1 block) }

/-- The statement a log asks for, and the memory once it is executed. Logs that
do not decode, and swaps of pairs the factory never created, ask for none. -/
def applyLog (cfg : Config) (header : Block) (ix : Indexer) (l : Log) :
    Option (Statement × Indexer) :=
  match l.topic with
  | some .pairCreated =>
      (decodePairCreated l).map fun ev =>
        let p := createdPair header l ev
        (Database.upsertPair p, ix.addPair p)
  | some .sync =>
      (decodeSync l).map fun ev =>
        (Database.setPairReserves l.address ev.reserve0 ev.reserve1 l.blockNumber,
          ix.syncPair l.address ev.reserve0 ev.reserve1 l.blockNumber)
  | some .swap =>
      match decodeSwap l, ix.knownPairs[l.address]? with
      | some ev, some p =>
          some (Database.insertSwap (ix.valuedSwap (swapRow cfg header l ev) p), ix)
      | _, _ => none
  | some .mint =>
      (decodeMint l).map fun ev =>
        (Database.insertLiquidityEvent (ix.valuedLiquidity
          (liquidityRow cfg header l .mint ev.sender none ev.amount0 ev.amount1)), ix)
  | some .burn =>
      (decodeBurn l).map fun ev =>
        (Database.insertLiquidityEvent (ix.valuedLiquidity
          (liquidityRow cfg header l .burn ev.sender (some ev.recipient) ev.amount0 ev.amount1)), ix)
  | _ => none

/-- The pairs whose reserves a block changed, each once. -/
def syncedPairs (logs : List Log) : List Address :=
  ((logs.filter fun l => l.topic = some .sync).map Log.address).eraseDups

def pool (ix : Indexer) (p : Pair) : Pool :=
  { address := p.address, token0 := ix.token p.token0Address, token1 := ix.token p.token1Address,
    reserve0 := p.reserve0, reserve1 := p.reserve1 }

def pricingEngine (cfg : Config) (ix : Indexer) : Engine :=
  { pools := sortPoolsByAddress (ix.knownPairs.rows.map ix.pool)
    minLiquidityUSD := cfg.minPriceLiquidityUSD }

def snapshot (cfg : Config) (ix : Indexer) (timestamp : Nat) (address : Address) (p : Pair)
    (bucket : Nat) : PairSnapshot :=
  let engine := pricingEngine cfg ix
  let t0 := ix.token p.token0Address
  let t1 := ix.token p.token1Address
  let price0 := (engine.priceUSD t0).map Price.usd
  let price1 := (engine.priceUSD t1).map Price.usd
  { pairAddress := address, bucketSeconds := bucket,
    timestampBucket := floorBucket timestamp bucket, reserve0 := p.reserve0,
    reserve1 := p.reserve1, token0PriceUSD := price0, token1PriceUSD := price1,
    tvlUSD := pairTVL p.reserve0 t0 price0 p.reserve1 t1 price1 }

/-- The hour and day rows that close with a block, for its synced pairs. -/
def snapshotPairs (cfg : Config) (header : Block) (ix : Indexer) (pairs : List Address) :
    List PairSnapshot :=
  pairs.flatMap fun address =>
    match ix.knownPairs[address]? with
    | none => []
    | some p => [bucketHour, bucketDay].map (snapshot cfg ix header.timestamp address p)

/-- The order in which the logs of a range are processed. -/
abbrev logLE (l m : Log) : Prop :=
  l.blockNumber < m.blockNumber ∨ l.blockNumber = m.blockNumber ∧ l.index ≤ m.index

def sortLogs (logs : List Log) : List Log := logs.insertionSort logLE

def blockNums (logs : List Log) : List Nat :=
  (logs.map Log.blockNumber).dedup.insertionSort (· ≤ ·)

def safeBlock (cfg : Config) (head : Nat) : Nat :=
  if head < cfg.confirmations then 0 else head - cfg.confirmations

/-- The end of the next range; the sum wraps as the source's does. -/
def rangeEnd (fromBlock batchSize safe : Nat) : Nat :=
  let toBlock := (fromBlock + batchSize + (2 ^ 64 - 1)) % 2 ^ 64
  if safe < toBlock then safe else toBlock

/-- The node refused the span of a query. -/
def rangeTooLarge (error : String) : Bool :=
  ["query returned more than", "exceeds the limit", "block range is too wide",
    "too many results", "limit exceeded", "range too large", "response size exceeded"].any
    fun needle => error.toLower.toList.tails.any fun t => needle.toList.isPrefixOf t

variable (cfg : Config) (o : Outside)

def nextCall : Ix Nat := do
  let s ← Prog.get
  Prog.modify fun s => { s with calls := s.calls + 1 }
  pure s.calls

/-- A call that may fail; its number otherwise. -/
def request : Ix Nat := do
  let k ← nextCall
  match o.error k with
  | some e => Prog.fail e
  | none => pure k

def orFail {α : Type} (x : Option α) (reason : String) : Ix α :=
  match x with
  | some a => pure a
  | none => Prog.fail reason

def blockNumber : Ix Nat := do
  let k ← request o
  pure (o.chain k).headNumber

def headerByNumber (number : Nat) : Ix Block := do
  let k ← request o
  orFail ((o.chain k).headerAt number) "not found"

def filterLogs (fromBlock toBlock : Nat) (addresses : List Address) (topics : List Topic) :
    Ix (List Log) := do
  let k ← request o
  pure ((o.chain k).filterLogs fromBlock toBlock addresses topics)

/-- A failed call and an empty answer are alike to the caller. -/
def callContract (address : Address) (method : Method) : Ix (Option (List UInt8)) := do
  let k ← nextCall
  pure (if (o.error k).isSome then none else o.answer k address method)

def query {α : Type} (read : Database → α) : Ix α := do
  let _ ← request o
  let s ← Prog.get
  pure (read s.db)

def exec (statement : Statement) : Ix Unit := do
  let _ ← request o
  let s ← Prog.get
  if statement.allowed s.db then Prog.modify fun s => { s with db := statement.effect s.db }
  else Prog.fail statement.reason

def remember (update : Indexer → Indexer) : Ix Unit :=
  Prog.modify fun s => { s with ix := update s.ix }

/-- The end of a transaction that began on a database. -/
def commit (before : Database) : Ix Unit := do
  let k ← nextCall
  match o.error k with
  | none => pure ()
  | some e => do
      Prog.modify fun s => if o.lost k then s else { s with db := before }
      Prog.fail e

/-- A failure inside undoes the database, not the memory. -/
def inBlockTx (fn : Ix Unit) : Ix Unit := do
  let _ ← request o
  let s ← Prog.get
  Prog.onFailure fn fun t => { t with db := s.db }
  commit o s.db

def loadPairs (ix : Indexer) (pairs : List Pair) : Indexer :=
  { ix with knownPairs := pairs.foldl (fun known p => known.insert p.address p) ix.knownPairs }

def loadTokens (ix : Indexer) (tokens : List Token) : Indexer :=
  { ix with knownTokens := tokens.foldl (fun known t =>
      match t.address with
      | some address => known.insert address t
      | none => known) ix.knownTokens }

/-- The checks before any writing, then the pairs and tokens stored so far. -/
def preflight : Ix Unit := do
  let k ← request o
  orFail (if o.chainID k = cfg.chainID then some () else none) "preflight: connected to chain"
  let k ← request o
  orFail (if o.hasCode k then some () else none) "preflight: no contract at factory address"
  let _ ← request o
  let pairs ← query o fun db => db.pairs.rows
  remember fun ix => ix.loadPairs pairs
  let tokens ← query o fun db => db.tokens.rows
  remember fun ix => ix.loadTokens tokens

def startBlock : Ix Nat := do
  let st ← query o fun db => db.indexerState[cfg.chainID]?
  match st with
  | none => pure cfg.factoryDeployBlock
  | some st => pure (st.lastProcessedBlock + 1)

def setCursor (number : Nat) (header : Block) : Ix Unit :=
  exec o (Database.setIndexerState { chainID := cfg.chainID, lastProcessedBlock := number,
                                     lastProcessedBlockHash := header.hash })

/-- The next lower block whose stored hash is still on the chain. -/
def walkBack : Nat → Ix Nat
  | 0 => pure 0
  | ancestor + 1 =>
      if ancestor + 1 ≤ cfg.factoryDeployBlock then pure (ancestor + 1)
      else do
        let storedHash ← query o fun db => db.blockHash ancestor
        match storedHash with
        | none => walkBack ancestor
        | some storedHash => do
            let h ← headerByNumber o ancestor
            if h.hash = storedHash then pure ancestor else walkBack ancestor

def rollBackTo (ancestor : Nat) : Ix Unit :=
  inBlockTx o do
    Prog.forEach (exec o) (Database.rollbackFrom (ancestor + 1))
    let h ← headerByNumber o ancestor
    setCursor cfg o ancestor h

/-- The pairs of a rolled-back range no longer exist: forget all, then load. -/
def reloadPairs : Ix Unit := do
  remember fun ix => { ix with knownPairs := ∅ }
  let pairs ← query o fun db => db.pairs.rows
  remember fun ix => ix.loadPairs pairs

def recover (st : IndexerState) : Ix Unit := do
  let ancestor ← walkBack cfg o st.lastProcessedBlock
  rollBackTo cfg o ancestor
  reloadPairs o

def checkReorg : Ix Unit := do
  let st ← query o fun db => db.indexerState[cfg.chainID]?
  match st with
  | none => pure ()
  | some st => do
      let current ← headerByNumber o st.lastProcessedBlock
      if current.hash = st.lastProcessedBlockHash then pure () else recover cfg o st

/-- The pairs a log of the factory announces. -/
def announced (logs : List Log) : List Address :=
  logs.filterMap fun l => (decodePairCreated l).map PairCreated.pair

def pairTopics : List Topic := [.swap, .sync, .mint, .burn]

/-- Pairs created inside the range have their own events queried too. -/
def fetchLogs (fromBlock toBlock : Nat) : Ix (List Log) := do
  let factoryLogs ← filterLogs o fromBlock toBlock [cfg.factoryAddress] [.pairCreated]
  let s ← Prog.get
  let pairAddrs := s.ix.knownPairs.toList.map Prod.fst ++ announced factoryLogs
  if pairAddrs = [] then pure factoryLogs
  else do
    let pairLogs ← filterLogs o fromBlock toBlock pairAddrs pairTopics
    pure (factoryLogs ++ pairLogs)

def fetchToken (address : Address) : Ix Token := do
  let name ← callContract o address .name
  let symbol ← callContract o address .symbol
  let decimals ← callContract o address .decimals
  pure (applyTokenFlags cfg (tokenMetadata o.abi address name symbol decimals))

/-- The records of tokens not yet seen in the block; memory has them at once. -/
def fetchTokens : List Address → List Token → Ix (List Token)
  | [], newTokens => pure newTokens
  | address :: addresses, newTokens =>
      if newTokens.any fun t => t.address == some address then fetchTokens addresses newTokens
      else do
        let t ← fetchToken cfg o address
        remember fun ix => { ix with knownTokens := ix.knownTokens.insert address t }
        fetchTokens addresses (newTokens ++ [t])

def writeLog (header : Block) (l : Log) : Ix Unit := do
  let s ← Prog.get
  match applyLog cfg header s.ix l with
  | none => pure ()
  | some (statement, ix) => do
      exec o statement
      remember fun _ => ix

def writeSnapshots (header : Block) (logs : List Log) : Ix Unit := do
  let s ← Prog.get
  Prog.forEach (fun snap => exec o (Database.upsertPairSnapshot snap))
    (snapshotPairs cfg header s.ix (syncedPairs logs))

def writeBlock (header : Block) (number : Nat) (newTokens : List Token) (logs : List Log) :
    Ix Unit := do
  exec o (Database.insertBlock header)
  Prog.forEach (fun t => exec o (Database.upsertToken t)) newTokens
  Prog.forEach (writeLog cfg o header) logs
  writeSnapshots cfg o header logs
  setCursor cfg o number header

def processBlock (number : Nat) (logs : List Log) : Ix Unit := do
  let header ← headerByNumber o number
  let newTokens ← fetchTokens cfg o (createdTokens logs) []
  inBlockTx o (writeBlock cfg o header number newTokens logs)

/-- A refused range is halved and left to the next Tick. -/
def refused (error : String) : Ix Unit := do
  let s ← Prog.get
  if rangeTooLarge error ∧ 1 < s.ix.batchSize then
    remember fun ix => { ix with batchSize := ix.batchSize / 2 }
  else Prog.fail error

def indexLogs (toBlock : Nat) (logs : List Log) : Ix Unit := do
  let logs := sortLogs logs
  Prog.forEach (fun bn => processBlock cfg o bn (logs.filter fun l => l.blockNumber = bn))
    (blockNums logs)
  let head ← headerByNumber o toBlock
  inBlockTx o (setCursor cfg o toBlock head)

def processRange (fromBlock toBlock : Nat) : Ix Unit := do
  let fetched ← Prog.attempt (fetchLogs cfg o fromBlock toBlock)
  match fetched with
  | .error e => refused e
  | .ok logs => indexLogs cfg o toBlock logs

/-- One batch at most. -/
def advance (safe : Nat) : Ix Unit := do
  let fromBlock ← startBlock cfg o
  if safe < fromBlock then pure ()
  else do
    let s ← Prog.get
    processRange cfg o fromBlock (rangeEnd fromBlock s.ix.batchSize safe)

def tick : Ix Unit := do
  let head ← blockNumber o
  checkReorg cfg o
  advance cfg o (safeBlock cfg head)

/-- Whether there is nothing left to index, which is asked before a Tick. -/
def caughtUp : Ix Bool := do
  let head ← blockNumber o
  let fromBlock ← startBlock cfg o
  pure (decide (safeBlock cfg head < fromBlock))

/-- A number of rounds of the loop: whether it returned. A Tick is followed by a
look at the context, which may be cancelled. -/
def syncToHead : Nat → Ix Bool
  | 0 => pure false
  | rounds + 1 => do
      let done ← caughtUp cfg o
      if done then pure true
      else do
        tick cfg o
        let _ ← request o
        syncToHead rounds

end Indexer

end ArkSwap.GoInternal
