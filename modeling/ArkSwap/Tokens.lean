import ArkSwap.Sdk
import Mathlib.Data.List.DropRight

/-! The tokens of the web app: how they are told apart, and the address that
each is traded under. -/

namespace ArkSwap.Web

open Checked

/-- A token as it is configured or imported; native KASH has no address. -/
structure Token where
  symbol : Text
  address : Option Text
  isNative : Bool
  isImported : Bool
  deriving DecidableEq

/-- Reading the address of a token that has none throws. -/
def tokenKey (token : Token) : Except String Text :=
  if token.isNative then .ok "NATIVE".toList
  else
    match token.address with
    | some address => .ok (Sdk.toLowerCase address)
    | none => .error "TypeError"

def sameToken (a b : Token) : Except String Bool := do
  return (← tokenKey a) == (← tokenKey b)

/-- Native KASH is traded as WKASH, every other token as itself. -/
def routedAddress (wkashAddress : Option Text) (token : Token) : Option Text :=
  if token.isNative then wkashAddress else token.address

def isSpace (c : Char) : Bool :=
  c.toNat ∈ [0x09, 0x0a, 0x0b, 0x0c, 0x0d, 0x20, 0xa0, 0x1680, 0x2028, 0x2029, 0x202f, 0x205f, 0x3000,
    0xfeff] || (0x2000 ≤ c.toNat && c.toNat ≤ 0x200a)

def trim (t : Text) : Text := (t.dropWhile isSpace).rdropWhile isSpace

section Trimming

variable {t : Text} {c : Char}

theorem trim_eq_self (h : ∀ c ∈ t, isSpace c = false) : trim t = t := by
  have hfront : t.dropWhile isSpace = t := by
    rw [List.dropWhile_eq_self_iff]
    intro hlength
    rw [h _ (List.getElem_mem hlength)]
    exact Bool.false_ne_true
  rw [trim, hfront, List.rdropWhile_eq_self_iff]
  intro hne
  rw [h _ (List.getLast_mem hne)]
  exact Bool.false_ne_true

theorem mem_trim (hc : isSpace c = false) (h : c ∈ t) : c ∈ trim t := by
  have hfront : c ∈ t.dropWhile isSpace := by
    rw [← List.takeWhile_append_dropWhile (p := isSpace) (l := t), List.mem_append] at h
    refine h.resolve_left fun hm => ?_
    rw [List.mem_takeWhile_imp hm] at hc
    cases hc
  rw [← List.rdropWhile_append_rtakeWhile (p := isSpace) (l := t.dropWhile isSpace),
    List.mem_append] at hfront
  refine hfront.resolve_right fun hm => ?_
  rw [List.mem_rtakeWhile_imp hm] at hc
  cases hc

end Trimming

end ArkSwap.Web
