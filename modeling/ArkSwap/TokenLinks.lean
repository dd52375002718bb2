import ArkSwap.Tokens
import Mathlib.Data.List.Nodup

/-! The links to tokens: the texts that stand for a token in an address bar and in the
pool table, and the token that such a text is resolved to. -/

namespace ArkSwap.Web

section Lookup

variable {α : Type} {p : α → Bool} {a : α} {l : List α}

theorem find?_unique (ha : a ∈ l) (hp : p a = true) (honly : ∀ b ∈ l, p b = true → b = a) :
    l.find? p = some a := by
  rcases hfind : l.find? p with _ | b
  · exact absurd hp (List.find?_eq_none.mp hfind a ha)
  · rw [honly b (List.mem_of_find?_eq_some hfind) (List.find?_some hfind)]

theorem find?_append_of_left {l' : List α} (h : l.find? p = some a) : (l ++ l').find? p = some a := by
  rw [List.find?_append, h]
  rfl

/-- The first of a list that has a property is the one with none before it. -/
theorem find?_eq_some_iff_before [DecidableEq α] (ha : a ∈ l) :
    l.find? p = some a ↔ p a = true ∧ ∀ b ∈ l.takeWhile (· ≠ a), p b = false := by
  induction l with
  | nil => cases ha
  | cons b l ih =>
    by_cases hb : b = a
    · subst hb
      rw [List.takeWhile_cons_of_neg (by simp), List.find?_cons]
      split
      · rename_i hpb
        exact ⟨fun _ => ⟨hpb, fun c hc => by cases hc⟩, fun _ => rfl⟩
      · rename_i hpb
        refine ⟨fun h => ?_, fun h => ?_⟩
        · rw [List.find?_some h] at hpb
          cases hpb
        · rw [h.1] at hpb
          cases hpb
    · have hmem : a ∈ l := (List.mem_cons.mp ha).resolve_left fun h => hb h.symm
      rw [List.takeWhile_cons_of_pos (by simpa using hb), List.find?_cons]
      split
      · rename_i hpb
        refine ⟨fun h => absurd (Option.some.inj h) hb, fun h => ?_⟩
        rw [h.2 b List.mem_cons_self] at hpb
        cases hpb
      · rename_i hpb
        rw [ih hmem, List.forall_mem_cons]
        exact and_congr_right fun _ => ⟨fun h => ⟨by simpa using hpb, h⟩, fun h => h.2⟩

end Lookup

def isHexAddress : Text → Bool
  | '0' :: 'x' :: digits => digits.length = 40 ∧ digits.all fun c => c.toLower ∈ Hex.alphabet
  | _ => false

def tokenByAddress (list : List Token) (address : Text) : Option Token :=
  if address = [] then none
  else list.find? fun t => t.address.map Sdk.toLowerCase = some (Sdk.toLowerCase address)

/-- The pair of a pool row; a token of the list is known by the list's own symbol. -/
structure PoolToken where
  address : Text
  symbol : Text
  known : Bool
  deriving DecidableEq

structure PoolRow where
  pair : Text
  token0 : PoolToken
  token1 : PoolToken
  reserve0 : Int
  reserve1 : Int
  totalSupply : Int

structure PairDetails where
  pair : Text
  token0 : Option Text
  token1 : Option Text
  getReserves : Option (Int × Int)
  totalSupply : Option Int

def shorten (address : Text) : Text := address.take 6 ++ '…' :: Sdk.sliceLast 4 address

section Links

-- `toLowerCase` on texts of any alphabet; on addresses it is the one of the SDK
variable (lower : Text → Text) (list : List Token)

def resolveToken (id : Option Text) : Option Token :=
  match id with
  | none => none
  | some id =>
      let q := trim id
      if q = [] then none
      else if isHexAddress q then tokenByAddress list q
      else list.find? fun t => lower t.symbol = lower q

def tokenParam (token : Token) : Text :=
  if token.isNative then token.symbol
  else
    match token.isImported, token.address with
    | true, some address => address
    | _, _ => token.symbol

def linkParam (wkashAddress : Option Text) (kash : Token) (t : PoolToken) : Text :=
  if wkashAddress.map Sdk.toLowerCase = some (Sdk.toLowerCase t.address) then tokenParam kash
  else if t.known then t.symbol
  else t.address

/-- A token of a pair as the table shows it; `symbolOf` is what the chain answers for the
tokens that the list does not have. -/
def resolvePoolToken (symbolOf : Text → Option Text) (address : Option Text) : Option PoolToken :=
  match address with
  | none => none
  | some address =>
      if address = [] then none
      else
        match (tokenByAddress list address).bind fun t => t.address.map fun a => (a, t.symbol) with
        | some (listed, symbol) => some { address := listed, symbol := symbol, known := true }
        | none => some
            { address := address
              symbol := (symbolOf (Sdk.toLowerCase address)).getD (shorten address)
              known := false }

def poolRow (symbolOf : Text → Option Text) (d : PairDetails) : Option PoolRow :=
  match resolvePoolToken list symbolOf d.token0, resolvePoolToken list symbolOf d.token1,
    d.getReserves, d.totalSupply with
  | some token0, some token1, some (reserve0, reserve1), some totalSupply => some
      { pair := d.pair
        token0 := token0
        token1 := token1
        reserve0 := reserve0
        reserve1 := reserve1
        totalSupply := totalSupply }
  | _, _, _, _ => none

def usePools (symbolOf : Text → Option Text) (details : List PairDetails) : List PoolRow :=
  details.filterMap (poolRow list symbolOf)

end Links

/-- The tokens of the manifest, of which one is native KASH, and after them the
imported ones, whose symbols can be anything. -/
structure TokenList (lower : Text → Text) where
  manifest : List Token
  imported : List Token
  kash : Token
  kash_mem : kash ∈ manifest
  kash_native : kash.isNative = true
  listed : ∀ t ∈ manifest, t.isImported = false
  addressed : ∀ t ∈ manifest, (t.isNative = true ∧ t.address = none) ∨
    (t.isNative = false ∧ ∃ address, t.address = some address ∧ address ≠ [])
  symbols_distinct : (manifest.map fun t => lower t.symbol).Nodup
  symbols_no_address : ∀ t ∈ manifest, isHexAddress (trim t.symbol) = false
  unreviewed : ∀ t ∈ imported, t.isImported = true ∧ t.isNative = false ∧
    ∃ address, t.address = some address ∧ isHexAddress address = true
  addresses_distinct : (imported.map fun t => t.address.map Sdk.toLowerCase).Nodup
  addresses_new : ∀ t ∈ imported, ∀ m ∈ manifest,
    m.address.map Sdk.toLowerCase ≠ t.address.map Sdk.toLowerCase

variable {lower : Text → Text}

def TokenList.tokens (l : TokenList lower) : List Token := l.manifest ++ l.imported

/-- The link of each token opens it, and the links of each pool row open tokens that
are traded under the addresses of its tokens. -/
structure LinksOpen (l : TokenList lower) (wkashAddress : Option Text) : Prop where
  tokens : ∀ t ∈ l.tokens, resolveToken lower l.tokens (some (tokenParam t)) = some t
  pools : ∀ symbolOf details, ∀ row ∈ usePools l.tokens symbolOf details, ∀ p,
    p = row.token0 ∨ p = row.token1 → (tokenByAddress l.tokens p.address).isSome →
    ∃ t, resolveToken lower l.tokens (some (linkParam wkashAddress l.kash p)) = some t ∧
      (routedAddress wkashAddress t).map Sdk.toLowerCase = some (Sdk.toLowerCase p.address)

/-- White space around the symbol makes no difference to it. -/
def Trimmed (lower : Text → Text) (t : Token) : Prop :=
  trim t.symbol ≠ [] ∧ lower t.symbol = lower (trim t.symbol)

/-- The symbol of an imported token is an address only if it is its own, and else is the
symbol of no token before it; the pool table does not link to WKASH by its symbol. -/
def Unambiguous (l : TokenList lower) (wkashAddress : Option Text) (t : Token) : Prop :=
  wkashAddress.map Sdk.toLowerCase = t.address.map Sdk.toLowerCase ∨
    trim t.symbol ≠ [] ∧
      if isHexAddress (trim t.symbol) then
        t.address.map Sdk.toLowerCase = some (Sdk.toLowerCase (trim t.symbol))
      else lower t.symbol = lower (trim t.symbol) ∧
        ∀ u ∈ l.tokens.takeWhile (· ≠ t), lower u.symbol ≠ lower t.symbol

section Manifest

variable {l : TokenList lower} {wkashAddress : Option Text} {t u : Token} {address : Text}

theorem resolveToken_symbol (hnil : trim t.symbol ≠ []) (hplain : isHexAddress (trim t.symbol) = false)
    {list : List Token} : resolveToken lower list (some t.symbol) =
      list.find? fun u => lower u.symbol = lower (trim t.symbol) := by
  rw [resolveToken, if_neg hnil, hplain, if_neg Bool.false_ne_true]

/-- A listed token is found by its symbol exactly when that is not changed by trimming. -/
theorem TokenList.manifest_resolved (ht : t ∈ l.manifest) :
    resolveToken lower l.tokens (some t.symbol) = some t ↔ Trimmed lower t := by
  have haddress := l.symbols_no_address t ht
  constructor
  · intro h
    have hnil : trim t.symbol ≠ [] := by
      intro hnil
      rw [resolveToken, if_pos hnil] at h
      cases h
    rw [resolveToken_symbol hnil haddress] at h
    exact ⟨hnil, by simpa using List.find?_some h⟩
  · rintro ⟨hnil, hsame⟩
    rw [resolveToken_symbol hnil haddress, TokenList.tokens]
    refine find?_append_of_left (find?_unique ht (by simpa using hsame) fun u hu hfound => ?_)
    have hsymbol : lower u.symbol = lower t.symbol := (of_decide_eq_true hfound).trans hsame.symm
    exact List.inj_on_of_nodup_map l.symbols_distinct hu ht hsymbol

theorem TokenList.manifest_param (ht : t ∈ l.manifest) : tokenParam t = t.symbol := by
  rw [tokenParam, l.listed t ht]
  split <;> rfl

end Manifest

section Imported

variable {l : TokenList lower} {t u : Token} {address q : Text}

theorem isSpace_hex {c : Char} (h : c.toLower ∈ Hex.alphabet) : isSpace c = false := by
  by_cases hupper : c.val ≥ 'A'.val ∧ c.val ≤ 'Z'.val
  · obtain ⟨hlo, hhi⟩ := hupper
    simp only [ge_iff_le, UInt32.le_iff_toNat_le] at hlo hhi
    have hA : 'A'.val.toNat = 65 := rfl
    have hZ : 'Z'.val.toNat = 90 := rfl
    have hc : c.toNat = c.val.toNat := rfl
    simp only [isSpace, Bool.or_eq_false_iff, decide_eq_false_iff_not, Bool.and_eq_false_iff,
      List.mem_cons, List.not_mem_nil, or_false]
    omega
  · have hself : c.toLower = c := dif_neg hupper
    rw [hself] at h
    have hall : Hex.alphabet.all (fun c => !isSpace c) = true := by decide
    have hc := List.all_eq_true.mp hall c h
    rwa [Bool.not_eq_true'] at hc

theorem trim_address (h : isHexAddress address = true) : address ≠ [] ∧ trim address = address := by
  unfold isHexAddress at h
  split at h
  · rename_i digits
    rw [decide_eq_true_eq] at h
    refine ⟨List.cons_ne_nil _ _, trim_eq_self fun c hc => ?_⟩
    rcases List.mem_cons.mp hc with rfl | hc
    · decide
    · rcases List.mem_cons.mp hc with rfl | hc
      · decide
      · exact isSpace_hex (of_decide_eq_true (List.all_eq_true.mp h.2 c hc))
  · cases h

theorem TokenList.imported_unique (ht : t ∈ l.imported) (hu : u ∈ l.tokens)
    (h : u.address.map Sdk.toLowerCase = t.address.map Sdk.toLowerCase) : u = t := by
  rcases List.mem_append.mp hu with hu | hu
  · exact absurd h (l.addresses_new t ht u hu)
  · exact List.inj_on_of_nodup_map l.addresses_distinct hu ht h

theorem TokenList.imported_mem (ht : t ∈ l.imported) : t ∈ l.tokens := List.mem_append_right _ ht

theorem TokenList.imported_byAddress (ht : t ∈ l.imported) (hq : q ≠ [])
    (h : t.address.map Sdk.toLowerCase = some (Sdk.toLowerCase q)) :
    tokenByAddress l.tokens q = some t := by
  rw [tokenByAddress, if_neg hq]
  refine find?_unique (l.imported_mem ht) (by simpa using h) fun u hu hfound => ?_
  exact l.imported_unique ht hu ((of_decide_eq_true hfound).trans h.symm)

theorem TokenList.imported_resolved (ht : t ∈ l.imported) :
    resolveToken lower l.tokens (some (tokenParam t)) = some t := by
  obtain ⟨himported, hnative, address, haddress, hshape⟩ := l.unreviewed t ht
  obtain ⟨hnil, htrim⟩ := trim_address hshape
  have hparam : tokenParam t = address := by
    rw [tokenParam, hnative, if_neg Bool.false_ne_true, himported, haddress]
  rw [hparam, resolveToken, htrim, if_neg hnil, if_pos hshape]
  exact l.imported_byAddress ht hnil (by rw [haddress]; rfl)

/-- What an imported token's symbol opens is the token itself exactly when nothing comes
before it there. -/
theorem TokenList.imported_symbol (ht : t ∈ l.imported) :
    resolveToken lower l.tokens (some t.symbol) = some t ↔ trim t.symbol ≠ [] ∧
      if isHexAddress (trim t.symbol) then
        t.address.map Sdk.toLowerCase = some (Sdk.toLowerCase (trim t.symbol))
      else lower t.symbol = lower (trim t.symbol) ∧
        ∀ u ∈ l.tokens.takeWhile (· ≠ t), lower u.symbol ≠ lower t.symbol := by
  by_cases hnil : trim t.symbol = []
  · rw [resolveToken, if_pos hnil]
    exact ⟨(fun h => by cases h), fun h => absurd hnil h.1⟩
  · rw [resolveToken, if_neg hnil, and_iff_right hnil]
    split
    · constructor
      · intro h
        rw [tokenByAddress, if_neg hnil] at h
        have hfound := List.find?_some h
        rwa [decide_eq_true_eq] at hfound
      · exact l.imported_byAddress ht hnil
    · rw [find?_eq_some_iff_before (l.imported_mem ht)]
      simp only [decide_eq_true_eq, decide_eq_false_iff_not]
      exact and_congr_right fun hsame => by rw [hsame]

end Imported

section Pools

variable {l : TokenList lower} {list : List Token} {wkashAddress : Option Text} {t : Token}
  {address : Text} {symbolOf : Text → Option Text} {p : PoolToken}

theorem tokenByAddress_some (h : tokenByAddress list address = some t) :
    t ∈ list ∧ ∃ a, t.address = some a ∧ Sdk.toLowerCase a = Sdk.toLowerCase address := by
  rw [tokenByAddress] at h
  obtain ⟨-, h⟩ := Option.ite_none_left_eq_some.mp h
  have hfound := List.find?_some h
  rw [decide_eq_true_eq, Option.map_eq_some_iff] at hfound
  exact ⟨List.mem_of_find?_eq_some h, hfound⟩

theorem resolveToken_mem {id : Option Text} (h : resolveToken lower list id = some t) : t ∈ list := by
  unfold resolveToken at h
  split at h
  · cases h
  · obtain ⟨-, h⟩ := Option.ite_none_left_eq_some.mp h
    split at h
    · exact (tokenByAddress_some h).1
    · exact List.mem_of_find?_eq_some h

/-- A pool token that is in the list shows the symbol that a token of the list with its
address has. -/
theorem resolvePoolToken_listed {x : Option Text} (h : resolvePoolToken list symbolOf x = some p)
    (hp : (tokenByAddress list p.address).isSome) :
    ∃ t ∈ list, t.address = some p.address ∧ p.symbol = t.symbol ∧ p.known = true := by
  unfold resolvePoolToken at h
  split at h
  · cases h
  · rename_i address
    obtain ⟨-, h⟩ := Option.ite_none_left_eq_some.mp h
    split at h
    · rename_i a symbol hfound
      obtain ⟨t, ht, hlisted⟩ := Option.bind_eq_some_iff.mp hfound
      obtain ⟨b, hb, hpair⟩ := Option.map_eq_some_iff.mp hlisted
      obtain ⟨rfl, rfl⟩ := Prod.mk.inj hpair
      obtain rfl := Option.some.inj h
      exact ⟨t, (tokenByAddress_some ht).1, hb, rfl, rfl⟩
    · rename_i hnone
      obtain rfl := Option.some.inj h
      obtain ⟨t, ht⟩ := Option.isSome_iff_exists.mp hp
      obtain ⟨-, b, hb, -⟩ := tokenByAddress_some ht
      rw [ht, Option.bind_some, hb] at hnone
      cases hnone

theorem mem_usePools {details : List PairDetails} {row : PoolRow}
    (h : row ∈ usePools list symbolOf details) (hp : p = row.token0 ∨ p = row.token1) :
    ∃ x, resolvePoolToken list symbolOf x = some p := by
  obtain ⟨d, -, hrow⟩ := List.mem_filterMap.mp h
  unfold poolRow at hrow
  split at hrow
  · rename_i h₀ h₁ _ _
    obtain rfl := Option.some.inj hrow
    rcases hp with rfl | rfl
    · exact ⟨_, h₀⟩
    · exact ⟨_, h₁⟩
  · cases hrow

theorem TokenList.imported_row (ht : t ∈ l.imported) (haddress : t.address = some address)
    (hne : address ≠ []) : ∃ row ∈ usePools l.tokens (fun _ => none)
      [⟨[], some address, some address, some (1, 1), some 1⟩],
      row.token0 = { address := address, symbol := t.symbol, known := true } := by
  have hfound := l.imported_byAddress ht hne (by rw [haddress]; rfl)
  have hresolved : resolvePoolToken l.tokens (fun _ => none) (some address) =
      some { address := address, symbol := t.symbol, known := true } := by
    simp only [resolvePoolToken, if_neg hne, hfound, Option.bind_some, haddress, Option.map_some]
  refine ⟨⟨[], ⟨address, t.symbol, true⟩, ⟨address, t.symbol, true⟩, 1, 1, 1⟩,
    List.mem_filterMap.mpr ⟨_, List.mem_singleton.mpr rfl, ?_⟩, rfl⟩
  simp only [poolRow, hresolved]

theorem TokenList.linked_manifest {t : Token} (hplain : ∀ m ∈ l.manifest, Trimmed lower m)
    (ht : t ∈ l.manifest) (haddress : t.address = some address) :
    resolveToken lower l.tokens (some t.symbol) = some t ∧
      (routedAddress wkashAddress t).map Sdk.toLowerCase = some (Sdk.toLowerCase address) := by
  refine ⟨(l.manifest_resolved ht).mpr (hplain t ht), ?_⟩
  rcases l.addressed t ht with ⟨-, hbare⟩ | ⟨hnative, -⟩
  · rw [hbare] at haddress
    cases haddress
  · rw [routedAddress, hnative, if_neg Bool.false_ne_true, haddress]
    rfl

theorem TokenList.routed_imported {u : Token} (ht : t ∈ l.imported) (hu : u ∈ l.tokens)
    (hwkash : wkashAddress.map Sdk.toLowerCase ≠ t.address.map Sdk.toLowerCase)
    (h : (routedAddress wkashAddress u).map Sdk.toLowerCase = t.address.map Sdk.toLowerCase) :
    u = t := by
  rw [routedAddress] at h
  split at h
  · exact absurd h hwkash
  · exact l.imported_unique ht hu h

end Pools

/-- Links open the tokens they name exactly when no imported symbol takes the place of
another token's, and trimming changes no symbol of the manifest. -/
theorem links_open_iff {lower : Text → Text} (l : TokenList lower) (wkashAddress : Option Text) :
    LinksOpen l wkashAddress ↔
      (∀ t ∈ l.manifest, Trimmed lower t) ∧ ∀ t ∈ l.imported, Unambiguous l wkashAddress t := by
  constructor
  · intro h
    refine ⟨fun t ht => ?_, fun t ht => ?_⟩
    · have hopen := h.tokens t (List.mem_append_left _ ht)
      rw [l.manifest_param ht] at hopen
      exact (l.manifest_resolved ht).mp hopen
    · rw [Unambiguous, or_iff_not_imp_left]
      intro hwkash
      obtain ⟨-, -, address, haddress, hshape⟩ := l.unreviewed t ht
      have hne := (trim_address hshape).1
      obtain ⟨row, hrow, htoken⟩ := l.imported_row ht haddress hne
      have hlisted := l.imported_byAddress ht hne (by rw [haddress]; rfl)
      have hsome : (tokenByAddress l.tokens row.token0.address).isSome := by
        rw [htoken, hlisted]
        rfl
      obtain ⟨u, hu, hrouted⟩ := h.pools _ _ row hrow row.token0 (.inl rfl) hsome
      have hlink : linkParam wkashAddress l.kash row.token0 = t.symbol := by
        rw [haddress] at hwkash
        rw [htoken, linkParam]
        exact (if_neg hwkash).trans (if_pos rfl)
      rw [hlink] at hu
      have heq : u = t := l.routed_imported ht (resolveToken_mem hu) hwkash
        (by rw [hrouted, htoken, haddress]; rfl)
      rw [heq] at hu
      exact (l.imported_symbol ht).mp hu
  · rintro ⟨hplain, hunambiguous⟩
    have hmanifest : ∀ t ∈ l.manifest,
        resolveToken lower l.tokens (some (tokenParam t)) = some t := by
      intro t ht
      rw [l.manifest_param ht]
      exact (l.manifest_resolved ht).mpr (hplain t ht)
    refine ⟨fun t ht => ?_, fun symbolOf details row hrow p hp hlisted => ?_⟩
    · rcases List.mem_append.mp ht with ht | ht
      · exact hmanifest t ht
      · exact l.imported_resolved ht
    · obtain ⟨x, hx⟩ := mem_usePools hrow hp
      obtain ⟨t, ht, haddress, hsymbol, hknown⟩ := resolvePoolToken_listed hx hlisted
      by_cases hwkash : wkashAddress.map Sdk.toLowerCase = some (Sdk.toLowerCase p.address)
      · rw [linkParam, if_pos hwkash]
        refine ⟨l.kash, hmanifest l.kash l.kash_mem, ?_⟩
        rw [routedAddress, if_pos l.kash_native, hwkash]
      · rw [linkParam, if_neg hwkash, if_pos hknown, hsymbol]
        rcases List.mem_append.mp ht with ht | ht
        · exact ⟨t, l.linked_manifest hplain ht haddress⟩
        · rcases hunambiguous t ht with hsame | hown
          · rw [haddress] at hsame
            exact absurd hsame hwkash
          · obtain ⟨-, hnative, -⟩ := l.unreviewed t ht
            refine ⟨t, (l.imported_symbol ht).mpr hown, ?_⟩
            rw [routedAddress, hnative, if_neg Bool.false_ne_true, haddress]
            rfl

section Spoofed

def KASH : Token := { symbol := "KASH".toList, address := none, isNative := true, isImported := false }

def manifestToken (symbol : String) (n : Nat) : Token :=
  { symbol := symbol.toList, address := some (hexText 40 n), isNative := false, isImported := false }

def importedToken (symbol : String) (n : Nat) : Token :=
  { symbol := symbol.toList, address := some (hexText 40 n), isNative := false, isImported := true }

theorem manifestToken_addressed (symbol : String) (n : Nat) :
    (manifestToken symbol n).isNative = false ∧
      ∃ address, (manifestToken symbol n).address = some address ∧ address ≠ [] :=
  ⟨rfl, _, rfl, List.cons_ne_nil _ _⟩

/-- An import whose symbol differs from a listed one in the case of one letter. -/
def spoofedList : TokenList Sdk.toLowerCase where
  manifest := [KASH, manifestToken "WKASH" 3, manifestToken "mUSDC" 5]
  imported := [importedToken "MUSDC" 9]
  kash := KASH
  kash_mem := List.mem_cons_self
  kash_native := rfl
  listed := by decide
  addressed := by
    simp only [List.forall_mem_cons, List.not_mem_nil, false_implies, implies_true, and_true]
    exact ⟨.inl ⟨rfl, rfl⟩, .inr (manifestToken_addressed _ _), .inr (manifestToken_addressed _ _)⟩
  symbols_distinct := by decide
  symbols_no_address := by decide
  unreviewed := by
    simp only [List.forall_mem_cons, List.not_mem_nil, false_implies, implies_true, and_true]
    exact ⟨rfl, rfl, _, rfl, by decide⟩
  addresses_distinct := by decide
  addresses_new := by decide

/-- The link of a pool of the import opens the listed token instead. -/
theorem spoofedList_misleads :
    resolveToken Sdk.toLowerCase spoofedList.tokens (some (linkParam (some (hexText 40 3)) KASH
      { address := hexText 40 9, symbol := "MUSDC".toList, known := true })) =
        some (manifestToken "mUSDC" 5) ∧
    ¬LinksOpen spoofedList (some (hexText 40 3)) := by
  have hopened : resolveToken Sdk.toLowerCase spoofedList.tokens (some (linkParam
      (some (hexText 40 3)) KASH { address := hexText 40 9, symbol := "MUSDC".toList, known := true })) =
        some (manifestToken "mUSDC" 5) := by decide
  refine ⟨hopened, fun h => ?_⟩
  obtain ⟨row, hrow, htoken⟩ := spoofedList.imported_row (t := importedToken "MUSDC" 9)
    List.mem_cons_self rfl (List.cons_ne_nil _ _)
  have hlisted : (tokenByAddress spoofedList.tokens row.token0.address).isSome := by
    rw [htoken]
    decide
  obtain ⟨u, hu, hrouted⟩ := h.pools _ _ row hrow row.token0 (.inl rfl) hlisted
  rw [htoken] at hu hrouted
  obtain rfl := Option.some.inj (hu.symm.trans hopened)
  revert hrouted
  decide

end Spoofed

end ArkSwap.Web
