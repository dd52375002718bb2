import ArkSwap.Models

/-! Event logs of the factory and the pairs, their decoders, and the part of a
chain that its node serves: headers and filtered logs. -/

namespace ArkSwap.GoInternal

/-- The first topic of a log, up to the five the indexer knows. -/
inductive Topic where
  | pairCreated
  | mint
  | burn
  | swap
  | sync
  | other
  deriving DecidableEq

/-- The topics after the first are `indexed`; `data` holds the whole words of
the log's data. -/
structure Log where
  address : Address
  topic : Option Topic
  indexed : List Word
  data : List Word
  blockNumber : Nat
  txHash : Word
  index : Nat
  blockHash : Word
  deriving DecidableEq

structure PairCreated where
  token0 : Address
  token1 : Address
  pair : Address
  index : Nat

structure SwapEvent where
  sender : Address
  recipient : Address
  amount0In : Nat
  amount1In : Nat
  amount0Out : Nat
  amount1Out : Nat

structure SyncEvent where
  reserve0 : Nat
  reserve1 : Nat

structure MintEvent where
  sender : Address
  amount0 : Nat
  amount1 : Nat

structure BurnEvent where
  sender : Address
  recipient : Address
  amount0 : Nat
  amount1 : Nat

/-- The last twenty bytes of a word. -/
def bytesToAddress (w : Word) : Address := Fin.ofNat (2 ^ 160) w.val

/-- The values of a static ABI tuple; data beyond them is ignored. -/
def unpack (n : Nat) (data : List Word) : Option (List Word) :=
  if n ≤ data.length then some (data.take n) else none

def decodePairCreated (l : Log) : Option PairCreated :=
  match l.indexed, unpack 2 l.data with
  | [token0, token1], some [pair, index] =>
      some { token0 := bytesToAddress token0, token1 := bytesToAddress token1,
             pair := bytesToAddress pair, index := index.val }
  | _, _ => none

def decodeSwap (l : Log) : Option SwapEvent :=
  match l.indexed, unpack 4 l.data with
  | [sender, recipient], some [amount0In, amount1In, amount0Out, amount1Out] =>
      some { sender := bytesToAddress sender, recipient := bytesToAddress recipient,
             amount0In := amount0In.val, amount1In := amount1In.val,
             amount0Out := amount0Out.val, amount1Out := amount1Out.val }
  | _, _ => none

-- The number of topics is not checked here.
def decodeSync (l : Log) : Option SyncEvent :=
  match unpack 2 l.data with
  | some [reserve0, reserve1] => some { reserve0 := reserve0.val, reserve1 := reserve1.val }
  | _ => none

def decodeMint (l : Log) : Option MintEvent :=
  match l.indexed, unpack 2 l.data with
  | [sender], some [amount0, amount1] =>
      some { sender := bytesToAddress sender, amount0 := amount0.val, amount1 := amount1.val }
  | _, _ => none

def decodeBurn (l : Log) : Option BurnEvent :=
  match l.indexed, unpack 2 l.data with
  | [sender, recipient], some [amount0, amount1] =>
      some { sender := bytesToAddress sender, recipient := bytesToAddress recipient,
             amount0 := amount0.val, amount1 := amount1.val }
  | _, _ => none

structure MinedBlock where
  header : Block
  logs : List Log
  deriving DecidableEq

/-- The canonical chain as a node has it: the block of each height, genesis
first. -/
abbrev Chain := List MinedBlock

namespace Chain

def headNumber (c : Chain) : Nat := c.length - 1

def headerAt (chain : Chain) (number : Nat) : Option Block :=
  chain[number]?.map MinedBlock.header

def logsAt (chain : Chain) (number : Nat) : List Log :=
  (chain[number]?.map MinedBlock.logs).getD []

def filterLogs (c : Chain) (fromBlock toBlock : Nat) (addresses : List Address)
    (topics : List Topic) : List Log :=
  (List.range' fromBlock (toBlock + 1 - fromBlock)).flatMap fun number =>
    (c.logsAt number).filter fun l => l.address ∈ addresses ∧ ∃ t ∈ topics, l.topic = some t

theorem mem_filterLogs {c : Chain} {fromBlock toBlock : Nat} {addresses : List Address}
    {topics : List Topic} {l : Log} :
    l ∈ c.filterLogs fromBlock toBlock addresses topics ↔
      (∃ number, fromBlock ≤ number ∧ number ≤ toBlock ∧ l ∈ c.logsAt number) ∧
        l.address ∈ addresses ∧ ∃ t ∈ topics, l.topic = some t := by
  simp only [filterLogs, List.mem_flatMap, List.mem_range'_1, List.mem_filter, decide_eq_true_eq]
  constructor
  · rintro ⟨number, hnumber, hl, hfilter⟩
    exact ⟨⟨number, hnumber.1, by omega, hl⟩, hfilter⟩
  · rintro ⟨⟨number, hfrom, hto, hl⟩, hfilter⟩
    exact ⟨number, ⟨hfrom, by omega⟩, hl, hfilter⟩

end Chain

theorem decodeSwap_amounts_lt {l : Log} {ev : SwapEvent} (h : decodeSwap l = some ev) :
    ev.amount0In < 2 ^ 256 ∧ ev.amount1In < 2 ^ 256 ∧ ev.amount0Out < 2 ^ 256 ∧
      ev.amount1Out < 2 ^ 256 := by
  unfold decodeSwap at h
  split at h
  · cases h
    exact ⟨Fin.isLt _, Fin.isLt _, Fin.isLt _, Fin.isLt _⟩
  · cases h

theorem decodeSync_reserves_lt {l : Log} {ev : SyncEvent} (h : decodeSync l = some ev) :
    ev.reserve0 < 2 ^ 256 ∧ ev.reserve1 < 2 ^ 256 := by
  unfold decodeSync at h
  split at h
  · cases h
    exact ⟨Fin.isLt _, Fin.isLt _⟩
  · cases h

theorem decodeMint_amounts_lt {l : Log} {ev : MintEvent} (h : decodeMint l = some ev) :
    ev.amount0 < 2 ^ 256 ∧ ev.amount1 < 2 ^ 256 := by
  unfold decodeMint at h
  split at h
  · cases h
    exact ⟨Fin.isLt _, Fin.isLt _⟩
  · cases h

theorem decodeBurn_amounts_lt {l : Log} {ev : BurnEvent} (h : decodeBurn l = some ev) :
    ev.amount0 < 2 ^ 256 ∧ ev.amount1 < 2 ^ 256 := by
  unfold decodeBurn at h
  split at h
  · cases h
    exact ⟨Fin.isLt _, Fin.isLt _⟩
  · cases h

end ArkSwap.GoInternal
