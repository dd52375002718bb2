import Mathlib.Data.List.Basic
import Mathlib.Tactic.Ring
import Mathlib.Tactic.NormNum

/-! Numbers of a fixed width in lower-case hexadecimal digits: their slices, their
order as texts, and the digits of bytes. -/

namespace Hex

def alphabet : List Char :=
  ['0', '1', '2', '3', '4', '5', '6', '7', '8', '9', 'a', 'b', 'c', 'd', 'e', 'f']

def digit (n : Nat) : Char := alphabet.getD n '0'

/-- The `k` lowest digits of a number, the highest one first. -/
def digits : Nat → Nat → List Char
  | 0, _ => []
  | k + 1, n => digit (n / 16 ^ k % 16) :: digits k n

def ofBytes (bytes : List UInt8) : List Char := bytes.flatMap fun b => digits 2 b.toNat

def value (c : Char) : Nat := alphabet.idxOf c

def toBytes : List Char → List UInt8
  | c :: d :: rest => UInt8.ofNat (16 * value c + value d) :: toBytes rest
  | _ => []

variable {j k m n : Nat}

theorem digit_lt_iff (hm : m < 16) (hn : n < 16) : digit m < digit n ↔ m < n := by
  have h : ∀ i j : Fin 16, digit i.val < digit j.val ↔ i.val < j.val := by decide
  exact h ⟨m, hm⟩ ⟨n, hn⟩

theorem digit_inj (hm : m < 16) (hn : n < 16) (h : digit m = digit n) : m = n := by
  have hinj : ∀ i j : Fin 16, digit i.val = digit j.val → i = j := by decide
  exact Fin.mk.inj (hinj ⟨m, hm⟩ ⟨n, hn⟩ h)

theorem toLower_digit (n : Nat) (hn : n < 16) : (digit n).toLower = digit n := by
  have h : ∀ i : Fin 16, (digit i.val).toLower = digit i.val := by decide
  exact h ⟨n, hn⟩

theorem toLower_of_mem {c : Char} (hc : c ∈ alphabet) : c.toLower = c ∧ c.toUpper.toLower = c := by
  have h : alphabet.all (fun c => c.toLower == c && c.toUpper.toLower == c) = true := by decide
  have hboth := List.all_eq_true.mp h c hc
  rw [Bool.and_eq_true, beq_iff_eq, beq_iff_eq] at hboth
  exact hboth

theorem value_digit (hn : n < 16) : value (digit n) = n := by
  have h : ∀ i : Fin 16, value (digit i.val) = i.val := by decide
  exact h ⟨n, hn⟩

theorem digit_mem (hn : n < 16) : digit n ∈ alphabet := by
  have h : ∀ i : Fin 16, digit i.val ∈ alphabet := by decide
  exact h ⟨n, hn⟩

theorem mem_digits {c : Char} (hc : c ∈ digits k n) : c ∈ alphabet := by
  induction k with
  | zero => cases hc
  | succ k ih =>
    rcases List.mem_cons.mp hc with rfl | hc
    · exact digit_mem (Nat.mod_lt _ (by norm_num))
    · exact ih hc

@[simp] theorem length_digits (k n : Nat) : (digits k n).length = k := by
  induction k with
  | zero => rfl
  | succ k ih => rw [digits, List.length_cons, ih]

theorem toLower_digits (k n : Nat) : (digits k n).map Char.toLower = digits k n := by
  induction k with
  | zero => rfl
  | succ k ih => rw [digits, List.map_cons, ih, toLower_digit _ (Nat.mod_lt _ (by norm_num))]

theorem digits_mod (h : k ≤ j) (n : Nat) : digits k (n % 16 ^ j) = digits k n := by
  induction k with
  | zero => rfl
  | succ k ih =>
    obtain ⟨i, rfl⟩ := Nat.exists_eq_add_of_le h
    have hpow : 16 ^ (k + 1 + i) = 16 ^ k * (16 * 16 ^ i) := by ring
    rw [digits, digits, ih (by omega), hpow, Nat.mod_mul_right_div_self, Nat.mod_mul_right_mod]

theorem digits_add (j k n : Nat) : digits (j + k) n = digits j (n / 16 ^ k) ++ digits k n := by
  induction j with
  | zero => rw [Nat.zero_add, digits, List.nil_append]
  | succ j ih =>
    have hpow : 16 ^ (j + k) = 16 ^ k * 16 ^ j := by ring
    rw [Nat.succ_add, digits, digits, ih, List.cons_append, hpow, Nat.div_div_eq_div_mul]

theorem drop_digits (j k n : Nat) : (digits (j + k) n).drop j = digits k (n % 16 ^ k) := by
  rw [digits_mod (Nat.le_refl k), digits_add]
  exact List.drop_left' (length_digits j _)

/-- Texts of one width are ordered as the numbers they write. -/
theorem digits_lt_iff (hm : m < 16 ^ k) (hn : n < 16 ^ k) : digits k m < digits k n ↔ m < n := by
  induction k generalizing m n with
  | zero =>
    rw [pow_zero, Nat.lt_one_iff] at hm hn
    simp [digits, hm, hn]
  | succ k ih =>
    have hpow : 16 ^ (k + 1) = 16 ^ k * 16 := pow_succ _ _
    have hpos : 0 < 16 ^ k := Nat.pos_of_ne_zero (by positivity)
    have hm' : m / 16 ^ k < 16 := Nat.div_lt_of_lt_mul (by omega)
    have hn' : n / 16 ^ k < 16 := Nat.div_lt_of_lt_mul (by omega)
    have hmod := ih (Nat.mod_lt m hpos) (Nat.mod_lt n hpos)
    rw [digits_mod (Nat.le_refl k), digits_mod (Nat.le_refl k)] at hmod
    rw [digits, digits, Nat.mod_eq_of_lt hm', Nat.mod_eq_of_lt hn', List.cons_lt_cons_iff,
      digit_lt_iff hm' hn', hmod]
    have hm₀ := Nat.div_add_mod m (16 ^ k)
    have hn₀ := Nat.div_add_mod n (16 ^ k)
    constructor
    · rintro (hlt | ⟨heq, hlt⟩)
      · exact Nat.lt_of_div_lt_div hlt
      · rw [digit_inj hm' hn' heq] at hm₀
        omega
    · intro hlt
      rcases Nat.lt_or_eq_of_le (Nat.div_le_div_right (c := 16 ^ k) hlt.le) with hlt' | heq
      · exact .inl hlt'
      · rw [heq] at hm₀ ⊢
        exact .inr ⟨rfl, by omega⟩

theorem digits_inj (hm : m < 16 ^ k) (hn : n < 16 ^ k) (h : digits k m = digits k n) : m = n := by
  rcases Nat.lt_trichotomy m n with hlt | heq | hgt
  · exact absurd (h ▸ (digits_lt_iff hm hn).mpr hlt) (List.lt_irrefl _)
  · exact heq
  · exact absurd (h ▸ (digits_lt_iff hn hm).mpr hgt) (List.lt_irrefl _)

theorem ofBytes_append (as bs : List UInt8) : ofBytes (as ++ bs) = ofBytes as ++ ofBytes bs :=
  List.flatMap_append

theorem ofBytes_cons_ofNat (n : Nat) (bs : List UInt8) :
    ofBytes (UInt8.ofNat n :: bs) = digits 2 n ++ ofBytes bs := by
  rw [ofBytes, List.flatMap_cons, ← digits_mod (Nat.le_refl 2) n]
  rfl

theorem toBytes_ofBytes (bs : List UInt8) : toBytes (ofBytes bs) = bs := by
  induction bs with
  | nil => rfl
  | cons b bs ih =>
    have hb := b.toNat_lt
    have hsplit : ofBytes (b :: bs) =
        digit (b.toNat / 16) :: digit (b.toNat % 16) :: ofBytes bs := by
      simp only [ofBytes, List.flatMap_cons, digits, pow_one, pow_zero, Nat.div_one]
      rw [Nat.mod_eq_of_lt (a := b.toNat / 16) (by omega)]
      rfl
    rw [hsplit, toBytes, ih, value_digit (by omega), value_digit (by omega), Nat.div_add_mod]
    simp

/-- The number that digits stand for. -/
def read (t : List Char) : Nat := t.foldl (fun n c => 16 * n + value c) 0

theorem foldl_read (t : List Char) (m : Nat) :
    t.foldl (fun n c => 16 * n + value c) m = m * 16 ^ t.length + read t := by
  induction t generalizing m with
  | nil => simp [read]
  | cons c t ih =>
    rw [read, List.foldl_cons, List.foldl_cons, ih, ih, List.length_cons, pow_succ]
    ring

theorem read_cons (c : Char) (t : List Char) : read (c :: t) = value c * 16 ^ t.length + read t := by
  rw [read, List.foldl_cons, foldl_read, Nat.mul_zero, Nat.zero_add]

theorem value_of_mem {c : Char} (hc : c ∈ alphabet) : value c < 16 ∧ digit (value c) = c := by
  have h : alphabet.all (fun c => decide (value c < 16) && digit (value c) == c) = true := by decide
  have hboth := List.all_eq_true.mp h c hc
  rw [Bool.and_eq_true, decide_eq_true_iff, beq_iff_eq] at hboth
  exact hboth

theorem digits_read {t : List Char} (h : ∀ c ∈ t, c ∈ alphabet) :
    read t < 16 ^ t.length ∧ digits t.length (read t) = t := by
  induction t with
  | nil => exact ⟨Nat.one_pos, rfl⟩
  | cons c t ih =>
    obtain ⟨hc, ht⟩ := List.forall_mem_cons.mp h
    obtain ⟨hlt, hdigits⟩ := ih ht
    obtain ⟨hv, hcv⟩ := value_of_mem hc
    have hpos : 0 < 16 ^ t.length := by positivity
    have hdiv : (value c * 16 ^ t.length + read t) / 16 ^ t.length = value c := by
      rw [Nat.mul_comm, Nat.mul_add_div hpos, Nat.div_eq_of_lt hlt, Nat.add_zero]
    have hmod : digits t.length (value c * 16 ^ t.length + read t) = t := by
      rw [← digits_mod (le_refl t.length), Nat.mul_add_mod_self_right, digits_mod (le_refl t.length),
        hdigits]
    rw [read_cons, List.length_cons, digits, hdiv, Nat.mod_eq_of_lt hv, hcv, hmod]
    refine ⟨?_, rfl⟩
    calc value c * 16 ^ t.length + read t < (value c + 1) * 16 ^ t.length := by rw [Nat.add_one_mul]; omega
      _ ≤ 16 ^ (t.length + 1) := by rw [pow_succ, Nat.mul_comm]; exact Nat.mul_le_mul_left _ hv

theorem read_digits {k n : Nat} (hn : n < 16 ^ k) : read (digits k n) = n := by
  have hread := digits_read (t := digits k n) fun _ hc => mem_digits hc
  rw [length_digits] at hread
  exact digits_inj hread.1 hn hread.2

end Hex
