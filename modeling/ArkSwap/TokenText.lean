import ArkSwap.Models
import Mathlib.Data.List.DropRight

/-! What a token answers about itself: the text of its name and symbol as
`sanitise` accepts it, and its decimals. Text is kept as bytes. -/

namespace ArkSwap.GoInternal

def spaces : List (List UInt8) :=
  [[0x09], [0x0a], [0x0b], [0x0c], [0x0d], [0x20], [0xc2, 0x85], [0xc2, 0xa0], [0xe1, 0x9a, 0x80],
    [0xe2, 0x80, 0x80], [0xe2, 0x80, 0x81], [0xe2, 0x80, 0x82], [0xe2, 0x80, 0x83],
    [0xe2, 0x80, 0x84], [0xe2, 0x80, 0x85], [0xe2, 0x80, 0x86], [0xe2, 0x80, 0x87],
    [0xe2, 0x80, 0x88], [0xe2, 0x80, 0x89], [0xe2, 0x80, 0x8a], [0xe2, 0x80, 0xa8],
    [0xe2, 0x80, 0xa9], [0xe2, 0x80, 0xaf], [0xe2, 0x81, 0x9f], [0xe3, 0x80, 0x80]]

/-- Drop the given byte sequences from the front, at most `n` of them. -/
def trimStart (sequences : List (List UInt8)) : Nat → List UInt8 → List UInt8
  | 0, s => s
  | n + 1, s =>
      match sequences.find? (·.isPrefixOf s) with
      | some w => trimStart sequences n (s.drop w.length)
      | none => s

def trimSpace (s : List UInt8) : List UInt8 :=
  let t := trimStart spaces s.length s
  (trimStart (spaces.map List.reverse) t.length t.reverse).reverse

def within (lo hi b : UInt8) : Bool := lo ≤ b && b ≤ hi

def continuation (b : UInt8) : Bool := within 0x80 0xbf b

/-- `utf8.ValidString`: no overlong form, no surrogate, nothing past U+10FFFF. -/
def validString : List UInt8 → Bool
  | [] => true
  | b :: s =>
      if b < 0x80 then validString s
      else
        match s with
        | [] => false
        | b₁ :: s =>
            if within 0xc2 0xdf b then continuation b₁ && validString s
            else
              match s with
              | [] => false
              | b₂ :: s =>
                  if b = 0xe0 then within 0xa0 0xbf b₁ && continuation b₂ && validString s
                  else if b = 0xed then within 0x80 0x9f b₁ && continuation b₂ && validString s
                  else if within 0xe1 0xef b then
                    continuation b₁ && continuation b₂ && validString s
                  else
                    match s with
                    | [] => false
                    | b₃ :: s =>
                        if b = 0xf0 then
                          within 0x90 0xbf b₁ && continuation b₂ && continuation b₃ && validString s
                        else if within 0xf1 0xf3 b then
                          continuation b₁ && continuation b₂ && continuation b₃ && validString s
                        else if b = 0xf4 then
                          within 0x80 0x8f b₁ && continuation b₂ && continuation b₃ && validString s
                        else false

/-- The bytes of a control character occur in no other character. -/
def isControl (b : UInt8) : Bool := b < 0x20 || b == 0x7f

def maxLen : Nat := 128

-- The cut is at a byte, not at a character.
def sanitise (s : List UInt8) : Option (List UInt8) :=
  let s := trimSpace s
  if s = [] ∨ validString s = false then none
  else if s.any isControl then none
  else some (if maxLen < s.length then s.take maxLen else s)

structure ERC20ABI where
  unpackString : List UInt8 → Option (List UInt8)
  unpackUint8 : List UInt8 → Option UInt8

inductive Method where
  | name
  | symbol
  | decimals
  deriving DecidableEq

/-- A token answers with a string or, when that fails, with a padded `bytes32`. -/
def stringCall (abi : ERC20ABI) (answer : Option (List UInt8)) : Option (List UInt8) :=
  match answer with
  | none => none
  | some out =>
      if out = [] then none
      else
        match abi.unpackString out with
        | some s => sanitise s
        | none => if out.length = 32 then sanitise (out.rdropWhile (· == 0)) else none

def decimalsCall (abi : ERC20ABI) (answer : Option (List UInt8)) : Option Nat :=
  match answer with
  | none => none
  | some out => if out = [] then none else (abi.unpackUint8 out).map UInt8.toNat

/-- The token record made of three answers; a failed one leaves its field out. -/
def tokenMetadata (abi : ERC20ABI) (address : Address) (name symbol decimals : Option (List UInt8)) :
    Token :=
  { address := some address
    name := stringCall abi name
    symbol := stringCall abi symbol
    decimals := decimalsCall abi decimals
    metadataComplete := (stringCall abi name).isSome && (stringCall abi symbol).isSome &&
      (decimalsCall abi decimals).isSome
    isWhitelisted := false
    isStable := false
    isWKASH := false }

theorem sanitise_control {s t : List UInt8} (h : sanitise s = some t) : t.any isControl = false := by
  rw [sanitise] at h
  split at h
  · cases h
  · split at h
    · cases h
    · rename_i hc
      have hall : ∀ b ∈ trimSpace s, isControl b = false := by simpa using hc
      cases h
      rw [List.any_eq_false]
      intro b hb
      have hmem : b ∈ trimSpace s := by
        split at hb
        · exact List.mem_of_mem_take hb
        · exact hb
      rw [hall b hmem]
      exact Bool.false_ne_true

example : sanitise [0x20, 0x57, 0x4b, 0x41, 0x53, 0x48, 0x0a] = some [0x57, 0x4b, 0x41, 0x53, 0x48] := by
  decide

end ArkSwap.GoInternal
