import ArkSwap.Sdk
import ArkSwap.LibrarySpec
import ArkSwap.FactoryRegistry

/-! The address of a pair: the one the factory deploys to, the one the library
computes and the one the client computes from texts agree. -/

namespace ArkSwap

open Checked

variable {env : Env} {w w' : World} {a b : Address} {x y factory : Text}

section Spelling

theorem Spells.toLowerCase (h : Spells x a) : Sdk.toLowerCase x = hexText 40 a.val := by
  obtain ⟨digits, rfl, hdigits⟩ := h
  rw [hexText, ← hdigits]
  rfl

theorem spells_hexText (a : Address) : Spells (hexText 40 a.val) a :=
  ⟨_, rfl, Hex.toLower_digits 40 a.val⟩

theorem Address.lt_pow (a : Address) : a.val < 16 ^ 40 := by
  have h := a.isLt
  norm_num at h ⊢
  exact h

theorem Spells.lt_iff (hx : Spells x a) (hy : Spells y b) :
    Sdk.toLowerCase x < Sdk.toLowerCase y ↔ a < b := by
  have h := Hex.digits_lt_iff (Address.lt_pow a) (Address.lt_pow b)
  rw [hx.toLowerCase, hy.toLowerCase, hexText, hexText, Fin.lt_def]
  simpa [List.cons_lt_cons_iff] using h

theorem Spells.eq_iff (hx : Spells x a) (hy : Spells y b) :
    Sdk.toLowerCase x = Sdk.toLowerCase y ↔ a = b := by
  rw [hx.toLowerCase, hy.toLowerCase, hexText, hexText]
  constructor
  · intro h
    rw [List.cons.injEq, List.cons.injEq] at h
    exact Fin.ext (Hex.digits_inj (Address.lt_pow a) (Address.lt_pow b) h.2.2)
  · rintro rfl
    rfl

end Spelling

section Encoding

theorem bytesBE_succ (k n : Nat) :
    bytesBE (k + 1) n = UInt8.ofNat (n / 256 ^ k) :: bytesBE k n := by
  rw [bytesBE, bytesBE, List.range_succ_eq_map, List.map_cons, List.map_map]
  refine congrArg₂ List.cons rfl (List.map_congr_left fun i hi => ?_)
  rw [List.mem_range] at hi
  have hsub : k + 1 - 1 - i.succ = k - 1 - i := by omega
  rw [Function.comp_apply, hsub]

theorem ofBytes_bytesBE (k n : Nat) : Hex.ofBytes (bytesBE k n) = Hex.digits (2 * k) n := by
  induction k with
  | zero => rfl
  | succ k ih =>
    have hpow : 256 ^ k = 16 ^ (2 * k) := by
      rw [pow_mul]
      norm_num
    have hwidth : 2 * (k + 1) = 2 + 2 * k := by ring
    rw [bytesBE_succ, Hex.ofBytes_cons_ofNat, ih, hpow, hwidth, Hex.digits_add]

theorem ofBytes_encodeAddress (a : Address) :
    Hex.ofBytes (encodeAddress a) = Hex.digits 40 a.val := ofBytes_bytesBE 20 a.val

theorem sliceLast_hexText (n : Nat) :
    '0' :: 'x' :: Sdk.sliceLast 40 (hexText 64 n) = hexText 40 (Fin.ofNat (2 ^ 160) n).val := by
  have hdrop := Hex.drop_digits 24 40 n
  have hpow : 16 ^ 40 = 2 ^ 160 := by norm_num
  rw [hpow] at hdrop
  rw [Sdk.sliceLast, hexText, hexText, List.length_cons, List.length_cons, Hex.length_digits]
  rw [Fin.ofNat]
  exact congrArg (fun t => '0' :: 'x' :: t) hdrop

end Encoding

namespace Sdk

variable (viem : Viem env)

theorem sortTokens_spells (hne : a ≠ b) (hx : Spells x a) (hy : Spells y b) :
    ∃ s t x₀ y₀, sortTokens viem x y = .ok (s, t) ∧ viem.getAddress x₀ = .ok s ∧
      viem.getAddress y₀ = .ok t ∧ Spells s (min a b) ∧ Spells t (max a b) := by
  obtain ⟨s, hs, hsa⟩ := viem.getAddress_spells hx
  obtain ⟨t, ht, htb⟩ := viem.getAddress_spells hy
  have hdiff : toLowerCase s ≠ toLowerCase t := fun h => hne ((hsa.eq_iff htb).mp h)
  rcases lt_or_ge a b with hlt | hge
  · refine ⟨s, t, x, y, ?_, hs, ht, by rwa [min_eq_left hlt.le], by rwa [max_eq_right hlt.le]⟩
    simp [sortTokens, hs, ht, require, hdiff, (hsa.lt_iff htb).mpr hlt, bind, pure, Except.bind,
      Except.pure]
  · refine ⟨t, s, y, x, ?_, ht, hs, by rwa [min_eq_right hge], by rwa [max_eq_left hge]⟩
    simp [sortTokens, hs, ht, require, hdiff, mt (hsa.lt_iff htb).mp (not_lt.mpr hge), bind, pure,
      Except.bind, Except.pure]

theorem sortTokens_identical (hx : Spells x a) (hy : Spells y a) :
    sortTokens viem x y = .error "ArkSwap: IDENTICAL_ADDRESSES" := by
  obtain ⟨s, hs, hsa⟩ := viem.getAddress_spells hx
  obtain ⟨t, ht, htb⟩ := viem.getAddress_spells hy
  simp [sortTokens, hs, ht, require, (hsa.eq_iff htb).mpr rfl, bind, Except.bind]

theorem computePairAddress_eq (hne : a ≠ b) (hf : Spells factory env.factory) (hx : Spells x a)
    (hy : Spells y b) :
    computePairAddress viem factory x y =
      viem.getAddress (hexText 40 (ArkSwapLibrary.pool env a b).val) := by
  obtain ⟨s, t, x₀, y₀, hsort, hs, ht, hsa, htb⟩ := sortTokens_spells viem hne hx hy
  obtain ⟨f, hfactory, hff⟩ := viem.getAddress_spells hf
  have hsalt : viem.encodePacked [.address s, .address t] = .ok ('0' :: 'x' ::
      Hex.ofBytes (encodeAddress (min a b) ++ encodeAddress (max a b))) := by
    rw [Hex.ofBytes_append, ofBytes_encodeAddress, ofBytes_encodeAddress,
      viem.encodePacked_digits (.cons (.address hs hsa) (.cons (.address ht htb) .nil))]
    simp
  have hhash : viem.encodePacked [.bytes 1 (hexText 2 0xff), .address f,
      .bytes 32 (hexText 64 (pairSalt env (min a b) (max a b))), .bytes 32 PAIR_INIT_CODE_HASH] =
      .ok ('0' :: 'x' :: Hex.ofBytes (0xff :: encodeAddress env.factory ++
        bytesBE 32 (pairSalt env (min a b) (max a b)) ++
        bytesBE 32 ArkSwapLibrary.PAIR_INIT_CODE_HASH)) := by
    have hlead : Hex.ofBytes (0xff :: encodeAddress env.factory) =
        Hex.digits 2 0xff ++ Hex.digits 40 env.factory.val := by
      rw [← ofBytes_encodeAddress]
      exact Hex.ofBytes_cons_ofNat 0xff _
    rw [Hex.ofBytes_append, Hex.ofBytes_append, ofBytes_bytesBE, ofBytes_bytesBE, hlead]
    refine (viem.encodePacked_digits (.cons (.bytes 1 0xff) (.cons (.address hfactory hff)
      (.cons (.bytes 32 _) (.cons (.bytes 32 _) .nil))))).trans ?_
    simp [ArkSwapLibrary.PAIR_INIT_CODE_HASH]
  have hkeccak : viem.keccak256 ('0' :: 'x' ::
      Hex.ofBytes (encodeAddress (min a b) ++ encodeAddress (max a b))) =
      hexText 64 (pairSalt env (min a b) (max a b)) := viem.keccak256_bytes _
  simp only [computePairAddress, hsort, hsalt, hkeccak, hfactory, hhash, viem.keccak256_bytes,
    sliceLast_hexText, bind, Except.bind]
  rfl

end Sdk

/-- What the factory asks of the address before it deploys there. -/
def Free (env : Env) (w : World) (a b pair : Address) : Prop :=
  w.factory.getPair (min a b) (max a b) = 0 ∧ w.pair pair = none ∧ pair ≠ 0 ∧
    pair ≠ env.factory ∧ pair ≠ env.router ∧ pair ≠ env.WETH

theorem createPair_address (hcode : env.pairCodeHash = ArkSwapLibrary.PAIR_INIT_CODE_HASH)
    {pair : Address} (h : ArkSwapFactory.createPair env w a b = .ok (pair, w')) :
    pair = ArkSwapLibrary.pool env a b ∧ (w'.pair pair).isSome := by
  refine ⟨?_, ?_⟩
  · simp only [ArkSwapFactory.createPair, bind_eq_ok, require_eq_ok, pure_eq_ok, Except.ok.injEq,
      Prod.mk.injEq] at h
    obtain ⟨-, -, -, -, -, -, -, -, rfl, -⟩ := h
    rw [sorted_eq, hcode]
    rfl
  · obtain ⟨_, _, -, -, -, -, -, hpair, -⟩ := FactoryCall.createPair_ok h
    rw [hpair, Function.update_self]
    rfl

theorem createPair_free (hcode : env.pairCodeHash = ArkSwapLibrary.PAIR_INIT_CODE_HASH)
    (hne : a ≠ b) (hzero : min a b ≠ 0) (h : Free env w a b (ArkSwapLibrary.pool env a b)) :
    ∃ w', ArkSwapFactory.createPair env w a b = .ok (ArkSwapLibrary.pool env a b, w') := by
  obtain ⟨hget, hpair⟩ := h
  rw [ArkSwapFactory.createPair, sorted_eq]
  simp only [bind_eq_ok, require_eq_ok, pure_eq_ok, Except.ok.injEq, Prod.mk.injEq, hcode]
  exact ⟨_, (), hne, (), hzero, (), hget, (), hpair, rfl, rfl⟩

/-- The three derivations agree on distinct tokens and refuse identical ones. -/
theorem pairAddress_agree (viem : Viem env)
    (hcode : env.pairCodeHash = ArkSwapLibrary.PAIR_INIT_CODE_HASH) (a b : Address) :
    (a ≠ b → a ≠ 0 → b ≠ 0 → ∃ p t, Spells t p ∧ ArkSwapLibrary.pairFor env a b = .ok p ∧
      ArkSwapLibrary.pairFor env b a = .ok p ∧
      (∀ w q w', ArkSwapFactory.createPair env w a b = .ok (q, w') ∨
        ArkSwapFactory.createPair env w b a = .ok (q, w') → q = p ∧ (w'.pair p).isSome) ∧
      (∀ w, Free env w a b p → (∃ w', ArkSwapFactory.createPair env w a b = .ok (p, w')) ∧
        ∃ w', ArkSwapFactory.createPair env w b a = .ok (p, w')) ∧
      ∀ factory x y, Spells factory env.factory → Spells x a → Spells y b →
        Sdk.computePairAddress viem factory x y = .ok t ∧
          Sdk.computePairAddress viem factory y x = .ok t ∧
          (Sdk.toLowerCase x < Sdk.toLowerCase y ↔ a < b)) ∧
    (a = b → (∃ e, ArkSwapLibrary.pairFor env a b = .error e) ∧
      (∀ w, ∃ e, ArkSwapFactory.createPair env w a b = .error e) ∧
      ∀ factory x y, Spells x a → Spells y b →
        ∃ e, Sdk.computePairAddress viem factory x y = .error e) := by
  have hcomm : ArkSwapLibrary.pool env b a = ArkSwapLibrary.pool env a b := by
    rw [ArkSwapLibrary.pool, ArkSwapLibrary.pool, min_comm, max_comm]
  constructor
  · intro hne ha hb
    have hzero : min a b ≠ 0 := by
      rcases min_choice a b with h | h <;> rwa [h]
    obtain ⟨t, ht, hspells⟩ :=
      viem.getAddress_spells (spells_hexText (ArkSwapLibrary.pool env a b))
    refine ⟨ArkSwapLibrary.pool env a b, t, hspells,
      ArkSwapLibrary.pairFor_eq_ok.mpr ⟨hne, hzero, rfl⟩,
      ArkSwapLibrary.pairFor_eq_ok.mpr ⟨hne.symm, min_comm a b ▸ hzero, hcomm.symm⟩, ?_, ?_, ?_⟩
    · rintro w q w' (h | h)
      · obtain ⟨rfl, hsome⟩ := createPair_address hcode h
        exact ⟨rfl, hsome⟩
      · obtain ⟨rfl, hsome⟩ := createPair_address hcode h
        exact ⟨hcomm, hcomm ▸ hsome⟩
    · intro w hfree
      refine ⟨createPair_free hcode hne hzero hfree, ?_⟩
      rw [Free, min_comm, max_comm] at hfree
      have hfree' := createPair_free hcode hne.symm (min_comm a b ▸ hzero) (hcomm.symm ▸ hfree)
      rwa [hcomm] at hfree'
    · intro factory x y hf hx hy
      refine ⟨?_, ?_, hx.lt_iff hy⟩
      · rw [Sdk.computePairAddress_eq viem hne hf hx hy, ht]
      · rw [Sdk.computePairAddress_eq viem hne.symm hf hy hx, hcomm, ht]
  · rintro rfl
    refine ⟨⟨"ArkSwapLibrary: IDENTICAL_ADDRESSES", ?_⟩,
      fun w => ⟨"ArkSwap: IDENTICAL_ADDRESSES", ?_⟩, fun factory x y hx hy => ?_⟩
    · rw [ArkSwapLibrary.pairFor, ArkSwapLibrary.sortTokens, require_error_of_not (not_not.mpr rfl)]
      rfl
    · rw [ArkSwapFactory.createPair, require_error_of_not (not_not.mpr rfl)]
      rfl
    · refine ⟨"ArkSwap: IDENTICAL_ADDRESSES", ?_⟩
      rw [Sdk.computePairAddress, Sdk.sortTokens_identical viem hx hy]
      rfl

section Checksummed

def checksum (env : Env) (digits : Text) : Text :=
  let hash := env.keccak256 (digits.map fun c => UInt8.ofNat c.toNat)
  digits.mapIdx fun i c => if hash / 16 ^ (63 - i) % 16 ≥ 8 then c.toUpper else c

def checksumAddress (env : Env) : Text → Except String Text
  | '0' :: 'x' :: digits =>
      if digits.length = 40 ∧ (Sdk.toLowerCase digits).all (fun c => c ∈ Hex.alphabet) then
        .ok ('0' :: 'x' :: checksum env (Sdk.toLowerCase digits))
      else .error "InvalidAddressError"
  | _ => .error "InvalidAddressError"

def encodeItem (env : Env) : Packed → Except String Text
  | .address value => do
      require (checksumAddress env value = .ok value) "InvalidAddressError"
      return Sdk.toLowerCase (value.drop 2)
  | .bytes size value => do
      require (value.length = 2 * size + 2) "BytesSizeMismatchError"
      return value.drop 2

theorem toLowerCase_checksum (env : Env) {digits : Text} (h : ∀ c ∈ digits, c ∈ Hex.alphabet) :
    Sdk.toLowerCase (checksum env digits) = digits := by
  refine List.ext_getElem (by simp [Sdk.toLowerCase, checksum]) fun i hi hi' => ?_
  obtain ⟨hlower, hupper⟩ := Hex.toLower_of_mem (h _ (List.getElem_mem hi'))
  simp only [Sdk.toLowerCase, checksum, List.getElem_map, List.getElem_mapIdx]
  split
  · exact hupper
  · exact hlower

theorem checksumAddress_spells (env : Env) (hx : Spells x a) :
    checksumAddress env x = .ok ('0' :: 'x' :: checksum env (Hex.digits 40 a.val)) := by
  obtain ⟨digits, rfl, hdigits⟩ := hx
  have hlength : digits.length = 40 := by
    rw [← List.length_map (f := Char.toLower), hdigits, Hex.length_digits]
  have hvalid : (Hex.digits 40 a.val).all (fun c => c ∈ Hex.alphabet) = true :=
    List.all_eq_true.mpr fun c hc => decide_eq_true (Hex.mem_digits hc)
  rw [checksumAddress, Sdk.toLowerCase, hdigits, if_pos ⟨hlength, hvalid⟩]

theorem spells_checksum (env : Env) (a : Address) :
    Spells ('0' :: 'x' :: checksum env (Hex.digits 40 a.val)) a := by
  have hmem : ∀ c ∈ Hex.digits 40 a.val, c ∈ Hex.alphabet := fun c hc => Hex.mem_digits hc
  have hlower := toLowerCase_checksum env hmem
  rw [Sdk.toLowerCase] at hlower
  exact ⟨_, rfl, hlower⟩

theorem checksumAddress_again (env : Env) (h : checksumAddress env x = .ok y) (hy : Spells y a) :
    checksumAddress env y = .ok y := by
  rw [checksumAddress_spells env hy]
  unfold checksumAddress at h
  split at h
  · split at h
    · rename_i hvalid
      obtain rfl := Except.ok.inj h
      obtain ⟨_, hcons, hdigits⟩ := hy
      obtain rfl := (List.cons.inj (List.cons.inj hcons).2).2
      rw [← hdigits]
      exact congrArg (fun t => Except.ok ('0' :: 'x' :: checksum env t))
        (toLowerCase_checksum env fun c hc => of_decide_eq_true (List.all_eq_true.mp hvalid.2 c hc))
    · cases h
  · cases h

theorem encodeItem_packs (env : Env) {item : Packed} {digits : Text}
    (h : Packs (checksumAddress env) item digits) : encodeItem env item = .ok digits := by
  cases h with
  | address h ht =>
    rw [encodeItem, require_of (checksumAddress_again env h ht)]
    obtain ⟨_, rfl, hdigits⟩ := ht
    rw [← hdigits]
    rfl
  | bytes k n =>
    rw [encodeItem, require_of (by simp [hexText])]
    rfl

theorem mapM_encodeItem (env : Env) {items : List Packed} {digits : List Text}
    (h : List.Forall₂ (Packs (checksumAddress env)) items digits) :
    items.mapM (encodeItem env) = .ok digits := by
  induction h with
  | nil => rfl
  | cons hitem _ ih =>
    rw [List.mapM_cons, encodeItem_packs env hitem, ih]
    rfl

/-- Addresses in the letter case that a hash of their digits chooses. -/
def checksummed (env : Env) : Viem env where
  getAddress := checksumAddress env
  encodePacked items := do return '0' :: 'x' :: (← items.mapM (encodeItem env)).flatten
  keccak256 text := hexText 64 (env.keccak256 (Hex.toBytes (text.drop 2)))
  getAddress_spells h := ⟨_, checksumAddress_spells env h, spells_checksum env _⟩
  encodePacked_digits h := by
    rw [mapM_encodeItem env h]
    rfl
  keccak256_bytes bytes := by
    rw [List.drop_succ_cons, List.drop_succ_cons, List.drop_zero, Hex.toBytes_ofBytes]

def codedEnv : Env :=
  { hashEnv with pairCodeHash := ArkSwapLibrary.PAIR_INIT_CODE_HASH }

theorem codedEnv_agree : ∃ p t, Spells t p ∧ ArkSwapLibrary.pairFor codedEnv 5 4 = .ok p ∧
    (∃ w', ArkSwapFactory.createPair codedEnv freshWorld 5 4 = .ok (p, w')) ∧
    Sdk.computePairAddress (checksummed codedEnv) (hexText 40 1) (hexText 40 5) (hexText 40 4) =
      .ok t := by
  have hcode : codedEnv.pairCodeHash = ArkSwapLibrary.PAIR_INIT_CODE_HASH := rfl
  obtain ⟨p, t, ht, hp, -, -, hdeploy, hsdk⟩ := (pairAddress_agree (checksummed codedEnv) hcode
    5 4).1 (by decide) (by decide) (by decide)
  have hfree : Free codedEnv freshWorld 5 4 p := by
    obtain ⟨-, -, rfl⟩ := ArkSwapLibrary.pairFor_eq_ok.mp hp
    exact ⟨rfl, by decide +kernel, by decide +kernel, by decide +kernel, by decide +kernel,
      by decide +kernel⟩
  exact ⟨p, t, ht, hp, (hdeploy freshWorld hfree).1,
    (hsdk _ _ _ (spells_hexText 1) (spells_hexText 5) (spells_hexText 4)).1⟩

end Checksummed

end ArkSwap
