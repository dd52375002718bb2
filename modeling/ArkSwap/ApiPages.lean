import ArkSwap.Chart
import ArkSwap.Lib.Pages
import ArkSwap.TickRange
import ArkSwap.UsdText
import Mathlib.Data.Prod.Lex

/-! The pages of swaps and liquidity events that the analytics API serves, the client that
asks for them, and the feed of recent trades that the web app puts together from them. -/

namespace ArkSwap.GoInternal

/-- Where a row stands in the chain. -/
def Swap.position (s : Swap) : ℕ ×ₗ ℕ := toLex (s.blockNumber, s.logIndex)

def LiquidityEvent.position (e : LiquidityEvent) : ℕ ×ₗ ℕ := toLex (e.blockNumber, e.logIndex)

/-- A swap with the symbols of its tokens. -/
structure SwapRow where
  swap : Swap
  tokenInSymbol : Option (List UInt8)
  tokenOutSymbol : Option (List UInt8)

namespace Database

/-- The `WHERE` clause of a page of swaps: a parameter that is null asks for nothing. -/
def asked (pair account : Option Address) (s : Swap) : Bool :=
  pair.all (fun a => s.pairAddress = a) && account.all fun a => s.sender = a || s.recipient = a

def symbol (db : Database) (token : Option Address) : Option (List UInt8) :=
  token.bind fun address => db.tokens[address]?.bind Token.symbol

def swapRow (db : Database) (s : Swap) : SwapRow where
  swap := s
  tokenInSymbol := db.symbol s.tokenInAddress
  tokenOutSymbol := db.symbol s.tokenOutAddress

def listedSwaps (db : Database) (pair account : Option Address) : List Swap :=
  Pages.newestFirst Swap.position (db.swaps.rows.filter (asked pair account))

-- The rows are counted first, by a query of its own.
def swapsPage (counted db : Database) (pair account : Option Address) (limit offset : Nat) :
    List SwapRow × Nat :=
  ((Pages.page (db.listedSwaps pair account) limit offset).map db.swapRow,
    (counted.swaps.rows.filter (asked pair account)).length)

def listedLiquidity (db : Database) (pair : Address) : List LiquidityEvent :=
  Pages.newestFirst LiquidityEvent.position
    (db.liquidityEvents.rows.filter fun e => e.pairAddress = pair)

def liquidityPage (counted db : Database) (pair : Address) (limit offset : Nat) :
    List LiquidityEvent × Nat :=
  (Pages.page (db.listedLiquidity pair) limit offset,
    (counted.liquidityEvents.rows.filter fun e => e.pairAddress = pair).length)

end Database

namespace Api

def pageLimitDefault : Nat := 50

def pageLimitMax : Nat := 100

structure Pagination where
  limit : Nat
  offset : Nat
  total : Nat
  deriving DecidableEq

structure ListEnvelope (α : Type) where
  data : List α
  pagination : Pagination

/-- The status, the code and the message of a refusal. -/
abbrev Failure := Nat × String × String

def databaseUnavailable : Failure := (503, "DATABASE_UNAVAILABLE", "Analytics database unavailable")

def invalidAddress : Failure := (400, "INVALID_ADDRESS", "Not a valid EVM address")

/-- `unicode.IsSpace`. -/
def isSpace (c : Char) : Bool :=
  c.toNat ∈ [0x09, 0x0a, 0x0b, 0x0c, 0x0d, 0x20, 0x85, 0xa0, 0x1680, 0x2028, 0x2029, 0x202f, 0x205f,
    0x3000] || (0x2000 ≤ c.toNat && c.toNat ≤ 0x200a)

def trimSpace (s : Text) : Text := (s.dropWhile isSpace).rdropWhile isSpace

/-- The address that a text names: lower case is how addresses are stored. -/
def parseAddress (raw : Text) : Option Address :=
  let s := trimSpace raw
  if Settings.addressRe s = true then
    some (Fin.ofNat (2 ^ 160) (Hex.read ((Sdk.toLowerCase s).drop 2)))
  else none

def atoiDigits (t : Text) : Option Nat :=
  if t ≠ [] ∧ t.all Char.isDigit = true then some (Decimal.value t) else none

/-- `strconv.Atoi`, where an `int` has 64 bits. -/
def atoi : Text → Option Int
  | '-' :: t => (atoiDigits t).bind fun n => if n ≤ 2 ^ 63 then some (-n) else none
  | '+' :: t => (atoiDigits t).bind fun n => if n < 2 ^ 63 then some n else none
  | t => (atoiDigits t).bind fun n => if n < 2 ^ 63 then some n else none

/-- A parameter that is no number from a least one on leaves the default. -/
def requested (least : Int) (default : Nat) (v : Text) : Nat :=
  match atoi v with
  | some n => if least ≤ n then n.toNat else default
  | none => default

-- An absent parameter is the empty text, which is no number either.
def parsePaging (limit offset : Text) : Nat × Nat :=
  let n := requested 1 pageLimitDefault limit
  (if pageLimitMax < n then pageLimitMax else n, requested 0 0 offset)

def usd (r : Option ℚ) : Option Text := r.map fun r => Rendered.formatUSD (some r)

def amountString (v : Option Nat) : Option Text := v.map (Nat.toDigits 10)

structure SwapView where
  txHash : Word
  logIndex : Nat
  blockNumber : Nat
  timestamp : Nat
  pairAddress : Address
  sender : Address
  recipient : Address
  tokenIn : Option Address
  tokenOut : Option Address
  tokenInSymbol : Option (List UInt8)
  tokenOutSymbol : Option (List UInt8)
  amountIn : Option Text
  amountOut : Option Text
  amountUsd : Option Text
  deriving DecidableEq

def swapView (r : SwapRow) : SwapView where
  txHash := r.swap.txHash
  logIndex := r.swap.logIndex
  blockNumber := r.swap.blockNumber
  timestamp := r.swap.timestamp
  pairAddress := r.swap.pairAddress
  sender := r.swap.sender
  recipient := r.swap.recipient
  tokenIn := r.swap.tokenInAddress
  tokenOut := r.swap.tokenOutAddress
  tokenInSymbol := r.tokenInSymbol
  tokenOutSymbol := r.tokenOutSymbol
  amountIn := amountString r.swap.amountIn
  amountOut := amountString r.swap.amountOut
  amountUsd := usd r.swap.amountUSD

structure LiquidityView where
  txHash : Word
  logIndex : Nat
  blockNumber : Nat
  timestamp : Nat
  pairAddress : Address
  eventType : LiquidityEventType
  sender : Option Address
  recipient : Option Address
  amount0 : Text
  amount1 : Text
  amountUsd : Option Text
  deriving DecidableEq

def liquidityView (e : LiquidityEvent) : LiquidityView where
  txHash := e.txHash
  logIndex := e.logIndex
  blockNumber := e.blockNumber
  timestamp := e.timestamp
  pairAddress := e.pairAddress
  eventType := e.eventType
  sender := e.sender
  recipient := e.recipient
  amount0 := Nat.toDigits 10 e.amount0
  amount1 := Nat.toDigits 10 e.amount1
  amountUsd := usd e.amountUSD

/-- The databases that the two queries of a request find, or none where one of them fails. -/
abbrev Store := Option (Database × Database)

def swapsPage (store : Store) (limit offset : Text) (pair account : Option Address) :
    Except Failure (ListEnvelope SwapView) :=
  let (limit, offset) := parsePaging limit offset
  match store with
  | none => .error databaseUnavailable
  | some (counted, db) =>
      let (rows, total) := Database.swapsPage counted db pair account limit offset
      .ok { data := rows.map swapView, pagination := { limit := limit, offset := offset, total := total } }

def pairSwaps (store : Store) (address limit offset : Text) :
    Except Failure (ListEnvelope SwapView) :=
  match parseAddress address with
  | none => .error invalidAddress
  | some addr => swapsPage store limit offset (some addr) none

def accountSwaps (store : Store) (address limit offset : Text) :
    Except Failure (ListEnvelope SwapView) :=
  match parseAddress address with
  | none => .error invalidAddress
  | some addr => swapsPage store limit offset none (some addr)

def pairLiquidity (store : Store) (address limit offset : Text) :
    Except Failure (ListEnvelope LiquidityView) :=
  match parseAddress address with
  | none => .error invalidAddress
  | some addr =>
      let (limit, offset) := parsePaging limit offset
      match store with
      | none => .error databaseUnavailable
      | some (counted, db) =>
          let (rows, total) := Database.liquidityPage counted db addr limit offset
          .ok { data := rows.map liquidityView,
                pagination := { limit := limit, offset := offset, total := total } }

end Api

/-- What the client asks for: a limit that is not a finite number from 1 on is not passed. -/
def clampLimit (limit : Option ℚ) : Nat :=
  match limit with
  | none => Api.pageLimitDefault
  | some n => if n < 1 then Api.pageLimitDefault else min ⌊n⌋.toNat Api.pageLimitMax

namespace AnalyticsClient

/-- A page, or none where the answer is not a success. -/
def pairSwaps (store : Api.Store) (address : Text) (limit : Option ℚ) (offset : Option Nat) :
    Option (Api.ListEnvelope Api.SwapView) :=
  (Api.pairSwaps store address (Nat.toDigits 10 (clampLimit limit))
    ((offset.map (Nat.toDigits 10)).getD [])).toOption

end AnalyticsClient

/-- The order of the feed: by time, then by block, then by the place in the block. -/
def Api.SwapView.recency (v : Api.SwapView) : ℕ ×ₗ ℕ ×ₗ ℕ :=
  toLex (v.timestamp, toLex (v.blockNumber, v.logIndex))

/-- The feed of recent trades, of the pages that came back. -/
def recentTrades (pages : List (Option (Api.ListEnvelope Api.SwapView))) (limit : Nat) :
    List Api.SwapView :=
  (Pages.newestFirst Api.SwapView.recency (pages.reduceOption.flatMap Api.ListEnvelope.data)).take limit

section Requests

variable {t raw address : Text} {a : Address} {n limit offset : Nat}

theorem atoiDigits_numeral (n : Nat) : Api.atoiDigits (Nat.toDigits 10 n) = some n := by
  have hdigits : (Nat.toDigits 10 n).all Char.isDigit = true :=
    List.all_eq_true.mpr (Decimal.isDigits_numeral n)
  rw [Api.atoiDigits, if_pos ⟨Nat.toDigits_ne_nil, hdigits⟩, Decimal.value_numeral]

theorem atoi_numeral (hn : n < 2 ^ 63) : Api.atoi (Nat.toDigits 10 n) = some (n : Int) := by
  have hread := atoiDigits_numeral n
  have hdigits := Decimal.isDigits_numeral n
  unfold Api.atoi
  split
  · rename_i h
    exact absurd (hdigits '-' (by rw [h]; exact List.mem_cons_self)) (by decide)
  · rename_i h
    exact absurd (hdigits '+' (by rw [h]; exact List.mem_cons_self)) (by decide)
  · rw [hread, Option.bind_some, if_pos hn]

theorem requested_numeral {least : Int} {default : Nat} (hleast : least ≤ n) (hn : n < 2 ^ 63) :
    Api.requested least default (Nat.toDigits 10 n) = n := by
  simp only [Api.requested, atoi_numeral hn, if_pos hleast, Int.toNat_natCast]

theorem parsePaging_numerals (hpos : 0 < limit) (hmax : limit ≤ Api.pageLimitMax)
    (hoffset : offset < 2 ^ 63) :
    Api.parsePaging (Nat.toDigits 10 limit) (Nat.toDigits 10 offset) = (limit, offset) := by
  have hlimit : limit < 2 ^ 63 := hmax.trans_lt (by norm_num [Api.pageLimitMax])
  rw [Api.parsePaging, requested_numeral (by omega) hlimit, requested_numeral (by omega) hoffset]
  exact congrArg (·, offset) (if_neg (not_lt.mpr hmax))

section Addresses

theorem hexDigit_iff (c : Char) :
    (('0' ≤ c ∧ c ≤ '9') ∨ ('a' ≤ c ∧ c ≤ 'f') ∨ ('A' ≤ c ∧ c ≤ 'F')) ↔ c.toLower ∈ Hex.alphabet := by
  have hascii : ∀ n : Fin 128, (('0' ≤ Char.ofNat n ∧ Char.ofNat n ≤ '9') ∨
      ('a' ≤ Char.ofNat n ∧ Char.ofNat n ≤ 'f') ∨ ('A' ≤ Char.ofNat n ∧ Char.ofNat n ≤ 'F')) ↔
      (Char.ofNat n).toLower ∈ Hex.alphabet := by decide
  by_cases hc : c.toNat < 128
  · have h := hascii ⟨c.toNat, hc⟩
    rwa [Char.ofNat_toNat] at h
  · have hcode : ∀ d : Char, c ≤ d → 128 ≤ d.toNat := fun d hd => (not_lt.mp hc).trans hd
    have hlower : c.toLower = c := by
      refine dif_neg ?_
      rintro ⟨-, h⟩
      exact absurd (hcode 'Z' h) (by decide)
    rw [hlower]
    constructor
    · rintro (⟨-, h⟩ | ⟨-, h⟩ | ⟨-, h⟩)
      · exact absurd (hcode _ h) (by decide)
      · exact absurd (hcode _ h) (by decide)
      · exact absurd (hcode _ h) (by decide)
    · intro hmem
      have hsmall : Hex.alphabet.all (fun d => decide (d.toNat < 128)) = true := by decide
      exact absurd (of_decide_eq_true (List.all_eq_true.mp hsmall c hmem)) hc

theorem addressRe_iff : Settings.addressRe t = true ↔
    ∃ digits, t = '0' :: 'x' :: digits ∧ digits.length = 40 ∧
      ∀ c ∈ digits, c.toLower ∈ Hex.alphabet := by
  unfold Settings.addressRe
  split
  · rename_i digits
    simp only [decide_eq_true_eq, List.all_eq_true, hexDigit_iff]
    constructor
    · rintro ⟨hlength, hdigits⟩
      exact ⟨digits, rfl, hlength, hdigits⟩
    · rintro ⟨_, h, hlength, hdigits⟩
      obtain rfl := (List.cons.inj (List.cons.inj h).2).2
      exact ⟨hlength, hdigits⟩
  · rename_i hshape
    constructor
    · intro h
      cases h
    · rintro ⟨digits, rfl, -⟩
      exact (hshape digits rfl).elim

/-- What is accepted is an address in some letter case, with space around it or without. -/
theorem parseAddress_eq_some : Api.parseAddress raw = some a ↔ Spells (Api.trimSpace raw) a := by
  have hword : 16 ^ 40 = 2 ^ 160 := by norm_num
  simp only [Api.parseAddress, Option.ite_none_right_eq_some, Option.some.injEq]
  rw [addressRe_iff]
  constructor
  · rintro ⟨⟨digits, ht, hlength, hdigits⟩, rfl⟩
    refine ⟨digits, ht, ?_⟩
    have hlower : ∀ c ∈ digits.map Char.toLower, c ∈ Hex.alphabet := by
      intro c hc
      obtain ⟨d, hd, rfl⟩ := List.mem_map.mp hc
      exact hdigits d hd
    obtain ⟨hlt, hread⟩ := Hex.digits_read hlower
    rw [List.length_map, hlength] at hlt hread
    rw [ht, Sdk.toLowerCase, List.map_cons, List.map_cons, List.drop_succ_cons, List.drop_succ_cons,
      List.drop_zero, Fin.val_ofNat, ← hword, Nat.mod_eq_of_lt hlt, hread]
  · rintro ⟨digits, ht, hlower⟩
    have hlength : digits.length = 40 := by
      rw [← List.length_map Char.toLower, hlower, Hex.length_digits]
    refine ⟨⟨digits, ht, hlength, fun c hc => ?_⟩, ?_⟩
    · refine Hex.mem_digits (k := 40) (n := a.val) ?_
      rw [← hlower]
      exact List.mem_map_of_mem hc
    · rw [ht, Sdk.toLowerCase, List.map_cons, List.map_cons, List.drop_succ_cons,
        List.drop_succ_cons, List.drop_zero, hlower, Hex.read_digits (by rw [hword]; exact a.isLt)]
      exact Fin.ofNat_val_eq_self a

theorem trimSpace_spaceless (h : ∀ c ∈ t, Api.isSpace c = false) : Api.trimSpace t = t := by
  have hfront : t.dropWhile Api.isSpace = t := by
    rw [List.dropWhile_eq_self_iff]
    intro hlength
    rw [h _ (List.getElem_mem hlength)]
    exact Bool.false_ne_true
  rw [Api.trimSpace, hfront, List.rdropWhile_eq_self_iff]
  intro hne
  rw [h _ (List.getLast_mem hne)]
  exact Bool.false_ne_true

theorem parseAddress_hexText (a : Address) : Api.parseAddress (hexText 40 a.val) = some a := by
  have hspaces : ∀ c ∈ hexText 40 a.val, Api.isSpace c = false := by
    have hdigit : Hex.alphabet.all (fun c => !Api.isSpace c) = true := by decide
    intro c hc
    rcases List.mem_cons.mp hc with rfl | hc
    · decide
    · rcases List.mem_cons.mp hc with rfl | hc
      · decide
      · have hletter := List.all_eq_true.mp hdigit c (Hex.mem_digits hc)
        rwa [Bool.not_eq_true'] at hletter
  rw [parseAddress_eq_some, trimSpace_spaceless hspaces]
  exact ⟨_, rfl, Hex.toLower_digits 40 a.val⟩

end Addresses

theorem clampLimit_range (limit : Option ℚ) :
    0 < clampLimit limit ∧ clampLimit limit ≤ Api.pageLimitMax := by
  have hdefault : 0 < Api.pageLimitDefault ∧ Api.pageLimitDefault ≤ Api.pageLimitMax := by decide
  rcases limit with _ | n
  · exact hdefault
  · rw [clampLimit]
    split
    · exact hdefault
    · rename_i hn
      have hfloor : 1 ≤ ⌊n⌋ := Int.le_floor.mpr (by exact_mod_cast not_lt.mp hn)
      exact ⟨lt_min (by omega) (by decide), min_le_right _ _⟩

theorem clampLimit_natCast (hpos : 0 < n) (hmax : n ≤ Api.pageLimitMax) :
    clampLimit (some (n : ℚ)) = n := by
  have hone : ¬((n : ℚ) < 1) := not_lt.mpr (by exact_mod_cast hpos)
  rw [clampLimit, if_neg hone, Int.floor_natCast, Int.toNat_natCast, min_eq_left hmax]

/-- What the client asks for is what the server grants: neither the limit nor the offset is
cut on the way. -/
theorem client_pairSwaps {counted db : Database} {limit : Option ℚ} {offset : Option Nat}
    (ha : Api.parseAddress address = some a) (hoffset : ∀ n ∈ offset, n < 2 ^ 63) :
    AnalyticsClient.pairSwaps (some (counted, db)) address limit offset =
      some { data := (Pages.page (db.listedSwaps (some a) none) (clampLimit limit)
               (offset.getD 0)).map fun s => Api.swapView (db.swapRow s)
             pagination := { limit := clampLimit limit, offset := offset.getD 0,
                             total := (counted.swaps.rows.filter (Database.asked (some a) none)).length } } := by
  obtain ⟨hpos, hmax⟩ := clampLimit_range limit
  have hpaging : Api.parsePaging (Nat.toDigits 10 (clampLimit limit))
      ((offset.map (Nat.toDigits 10)).getD []) = (clampLimit limit, offset.getD 0) := by
    rcases offset with _ | n
    · have hzero := parsePaging_numerals hpos hmax (show 0 < 2 ^ 63 by norm_num)
      rw [Api.parsePaging] at hzero ⊢
      exact Prod.ext (Prod.ext_iff.mp hzero).1 rfl
    · exact parsePaging_numerals hpos hmax (hoffset n rfl)
  rw [AnalyticsClient.pairSwaps, Api.pairSwaps, ha]
  simp only [Api.swapsPage, hpaging, Database.swapsPage, List.map_map]
  rfl

end Requests

end ArkSwap.GoInternal
