import ArkSwap.ExchangeLogs
import ArkSwap.IndexerReserves

/-! How the events of the contracts stand in the receipts of a chain, among the logs of other
contracts, and what the indexer's decoders read there. -/

namespace ArkSwap

open GoInternal

namespace Event

/-- The contract whose log it is. -/
def source (factory : Address) (e : Event) : Address := e.emitter.getD factory

def topic : Event → Topic
  | .pairCreated .. => .pairCreated
  | .mint .. => .mint
  | .burn .. => .burn
  | .swap .. => .swap
  | .sync .. => .sync

/-- The parameters declared `indexed`. -/
def indexed : Event → List Nat
  | .pairCreated token0 token1 _ _ => [token0, token1]
  | .mint _ sender _ _ => [sender]
  | .burn _ sender _ _ dst => [sender, dst]
  | .swap _ sender _ _ _ _ dst => [sender, dst]
  | .sync .. => []

/-- The other parameters. -/
def data : Event → List Nat
  | .pairCreated _ _ pair length => [pair, length]
  | .mint _ _ amount0 amount1 => [amount0, amount1]
  | .burn _ _ amount0 amount1 _ => [amount0, amount1]
  | .swap _ _ amount0In amount1In amount0Out amount1Out _ =>
      [amount0In, amount1In, amount0Out, amount1Out]
  | .sync _ reserve0 reserve1 => [reserve0, reserve1]

/-- The log that the event leaves in a receipt. -/
structure Encodes (factory : Address) (e : Event) (l : Log) : Prop where
  address : l.address = e.source factory
  topic : l.topic = some e.topic
  indexed : l.indexed.map Fin.val = e.indexed
  data : l.data.map Fin.val = e.data

/-- The values fit into words. -/
def Fits (e : Event) : Prop := ∀ x ∈ e.indexed ++ e.data, x < 2 ^ 256

instance {e : Event} : Decidable e.Fits := inferInstanceAs (Decidable (∀ x ∈ _, _))

/-- What a transaction of a block leaves for an event. -/
def receipt (factory : Address) (b : Block) (txHash : Word) (index : Nat) (e : Event) : Log :=
  { address := e.source factory, topic := some e.topic,
    indexed := e.indexed.map (Fin.ofNat (2 ^ 256)), data := e.data.map (Fin.ofNat (2 ^ 256)),
    blockNumber := b.number, txHash := txHash, index := index, blockHash := b.hash }

theorem map_val_ofNat {xs : List Nat} (h : ∀ x ∈ xs, x < 2 ^ 256) :
    (xs.map (Fin.ofNat (2 ^ 256))).map Fin.val = xs := by
  rw [List.map_map]
  exact (List.map_congr_left fun x hx => Nat.mod_eq_of_lt (h x hx)).trans (List.map_id xs)

theorem receipt_encodes {factory : Address} {b : Block} {txHash : Word} {index : Nat} {e : Event}
    (h : e.Fits) : e.Encodes factory (e.receipt factory b txHash index) where
  address := rfl
  topic := rfl
  indexed := map_val_ofNat fun x hx => h x (List.mem_append_left _ hx)
  data := map_val_ofNat fun x hx => h x (List.mem_append_right _ hx)

def isSwap (e : Event) : Bool := e.topic = .swap

def isLiquidity (e : Event) : Bool := e.topic = .mint ∨ e.topic = .burn

theorem Encodes.topic_ne {factory : Address} {e : Event} {l : Log} {t : Topic}
    (h : e.Encodes factory l) (ht : e.topic ≠ t) : l.topic ≠ some t := by
  rw [h.topic]
  exact fun heq => ht (Option.some.inj heq)

end Event

namespace GoInternal

/-- A log of another contract, or one the index is not about. A pair's address holds the
pair's code or none. -/
def Foreign (env : Env) (l : Log) : Prop :=
  ¬(l.address = env.factory ∧ l.topic = some .pairCreated) ∧
    ¬(Pooled env l.address ∧ Chain.PairTopic l)

/-- The receipts show the events, in order and among other logs. -/
abbrev Shows (env : Env) : List Event → List Log → Prop :=
  Carries (Event.Encodes env.factory) (Foreign env)

variable {env : Env} {factory a : Address} {e : Event} {l : Log} {events : List Event} {logs : List Log}

theorem bytesToAddress_of_val {word : Word} (h : word.val = a.val) : bytesToAddress word = a := by
  rw [bytesToAddress, h]
  exact Fin.ext (Nat.mod_eq_of_lt a.isLt)

section Decoders

variable {sender dst token0 token1 : Address} {n amount0 amount1 : Nat}

theorem decodePairCreated_of (h : Event.Encodes factory (.pairCreated token0 token1 a n) l) :
    decodePairCreated l = some { token0 := token0, token1 := token1, pair := a, index := n } := by
  have hindexed := h.indexed
  have hdata := h.data
  simp only [Event.indexed, Event.data, List.map_eq_cons_iff, List.map_eq_nil_iff] at hindexed hdata
  obtain ⟨t₀, _, htopics, h₀, t₁, _, rfl, h₁, rfl⟩ := hindexed
  obtain ⟨p, _, hwords, hp, k, _, rfl, hk, rfl⟩ := hdata
  rw [decodePairCreated, htopics, hwords]
  simp only [unpack, List.length_cons, List.length_nil, Nat.le_refl, if_true, List.take_succ_cons,
    List.take_zero, bytesToAddress_of_val h₀, bytesToAddress_of_val h₁, bytesToAddress_of_val hp, hk]

theorem decodeSync_of (h : Event.Encodes factory (.sync a amount0 amount1) l) :
    decodeSync l = some { reserve0 := amount0, reserve1 := amount1 } := by
  have hdata := h.data
  simp only [Event.data, List.map_eq_cons_iff, List.map_eq_nil_iff] at hdata
  obtain ⟨x, _, hwords, hx, y, _, rfl, hy, rfl⟩ := hdata
  rw [decodeSync, hwords]
  simp only [unpack, List.length_cons, List.length_nil, Nat.le_refl, if_true, List.take_succ_cons,
    List.take_zero, hx, hy]

theorem decodeMint_of (h : Event.Encodes factory (.mint a sender amount0 amount1) l) :
    decodeMint l = some { sender := sender, amount0 := amount0, amount1 := amount1 } := by
  have hindexed := h.indexed
  have hdata := h.data
  simp only [Event.indexed, Event.data, List.map_eq_cons_iff, List.map_eq_nil_iff] at hindexed hdata
  obtain ⟨s, _, htopics, hs, rfl⟩ := hindexed
  obtain ⟨x, _, hwords, hx, y, _, rfl, hy, rfl⟩ := hdata
  rw [decodeMint, htopics, hwords]
  simp only [unpack, List.length_cons, List.length_nil, Nat.le_refl, if_true, List.take_succ_cons,
    List.take_zero, bytesToAddress_of_val hs, hx, hy]

theorem decodeBurn_of (h : Event.Encodes factory (.burn a sender amount0 amount1 dst) l) :
    decodeBurn l =
      some { sender := sender, recipient := dst, amount0 := amount0, amount1 := amount1 } := by
  have hindexed := h.indexed
  have hdata := h.data
  simp only [Event.indexed, Event.data, List.map_eq_cons_iff, List.map_eq_nil_iff] at hindexed hdata
  obtain ⟨s, _, htopics, hs, d, _, rfl, hd, rfl⟩ := hindexed
  obtain ⟨x, _, hwords, hx, y, _, rfl, hy, rfl⟩ := hdata
  rw [decodeBurn, htopics, hwords]
  simp only [unpack, List.length_cons, List.length_nil, Nat.le_refl, if_true, List.take_succ_cons,
    List.take_zero, bytesToAddress_of_val hs, bytesToAddress_of_val hd, hx, hy]

theorem decodeSwap_of {amount0In amount1In amount0Out amount1Out : Nat}
    (h : Event.Encodes factory (.swap a sender amount0In amount1In amount0Out amount1Out dst) l) :
    decodeSwap l = some { sender := sender, recipient := dst, amount0In := amount0In,
                          amount1In := amount1In, amount0Out := amount0Out,
                          amount1Out := amount1Out } := by
  have hindexed := h.indexed
  have hdata := h.data
  simp only [Event.indexed, Event.data, List.map_eq_cons_iff, List.map_eq_nil_iff] at hindexed hdata
  obtain ⟨s, _, htopics, hs, d, _, rfl, hd, rfl⟩ := hindexed
  obtain ⟨x, _, hwords, hx, y, _, rfl, hy, z, _, rfl, hz, u, _, rfl, hu, rfl⟩ := hdata
  rw [decodeSwap, htopics, hwords]
  simp only [unpack, List.length_cons, List.length_nil, Nat.le_refl, if_true, List.take_succ_cons,
    List.take_zero, bytesToAddress_of_val hs, bytesToAddress_of_val hd, hx, hy, hz, hu]

end Decoders

/-- The announcement that a log of the factory makes. -/
def announcedBy (factory : Address) (l : Log) : Option Address :=
  if l.address = factory ∧ l.topic = some .pairCreated then
    (decodePairCreated l).map PairCreated.pair
  else none

theorem announcedBy_of (h : e.Encodes factory l) : announcedBy factory l = e.announced := by
  cases e with
  | pairCreated token0 token1 pair n =>
    rw [announcedBy, if_pos ⟨h.address, h.topic⟩, decodePairCreated_of h]
    rfl
  | mint => exact if_neg fun hboth => h.topic_ne (by simp [Event.topic]) hboth.2
  | burn => exact if_neg fun hboth => h.topic_ne (by simp [Event.topic]) hboth.2
  | swap => exact if_neg fun hboth => h.topic_ne (by simp [Event.topic]) hboth.2
  | sync => exact if_neg fun hboth => h.topic_ne (by simp [Event.topic]) hboth.2

theorem Shows.announced (h : Shows env events logs) :
    logs.filterMap (announcedBy env.factory) = events.filterMap Event.announced :=
  h.filterMap_eq (fun _ _ _ hl => announcedBy_of hl) fun _ hl => if_neg hl.1

/-- The reserves of a log, without its height. -/
def reservesOf (a : Address) (l : Log) : Option (Nat × Nat) := (syncOf a l).map fun s => (s.1, s.2.1)

theorem reservesOf_of (h : e.Encodes factory l) : reservesOf a l = e.syncOf a := by
  cases e with
  | sync pair reserve0 reserve1 =>
    have haddress : l.address = pair := h.address
    by_cases hpair : pair = a
    · rw [reservesOf, syncOf, if_pos ⟨haddress.trans hpair, h.topic⟩, decodeSync_of h, Event.syncOf,
        if_pos hpair]
      rfl
    · rw [reservesOf, syncOf, if_neg fun hboth => hpair (haddress.symm.trans hboth.1), Event.syncOf,
        if_neg hpair]
      rfl
  | pairCreated => rw [reservesOf, syncOf_of_topic (h.topic_ne (by simp [Event.topic]))]; rfl
  | mint => rw [reservesOf, syncOf_of_topic (h.topic_ne (by simp [Event.topic]))]; rfl
  | burn => rw [reservesOf, syncOf_of_topic (h.topic_ne (by simp [Event.topic]))]; rfl
  | swap => rw [reservesOf, syncOf_of_topic (h.topic_ne (by simp [Event.topic]))]; rfl

/-- The last Sync in the receipts is that of the contracts. -/
theorem Shows.lastOf (h : Shows env events logs) (ha : Pooled env a) :
    (((lastOf a logs).map fun s => (s.1, s.2.1)).getD (0, 0)) = lastSynced events a := by
  have hforeign : ∀ l, Foreign env l → reservesOf a l = none := by
    intro l hl
    rw [reservesOf, syncOf, if_neg, Option.map_none]
    rintro ⟨rfl, htopic⟩
    exact hl.2 ⟨ha, .sync, by decide, htopic⟩
  have hreserves : logs.filterMap (reservesOf a) = events.filterMap (Event.syncOf a) :=
    h.filterMap_eq (fun _ _ _ hl => reservesOf_of hl) hforeign
  rw [lastSynced, ← hreserves, GoInternal.lastOf, ← List.getLast?_map, List.map_filterMap]
  rfl

end GoInternal

end ArkSwap
