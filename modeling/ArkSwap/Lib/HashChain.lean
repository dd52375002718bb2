import Mathlib.Tactic.Common

/-! Chains of blocks in which each block names the hash of the one before:
where two such chains have the same hash, they agree from there down. -/

namespace HashChain

variable {B H : Type*} {hash parent : B → H} {bs bs' : List B}

def Linked (hash parent : B → H) (bs : List B) : Prop :=
  ∀ n b b', bs[n]? = some b → bs[n + 1]? = some b' → parent b' = hash b

/-- No two blocks of the chains share a hash. -/
def Distinguishes (hash : B → H) (bs bs' : List B) : Prop :=
  ∀ b ∈ bs, ∀ b' ∈ bs', hash b = hash b' → b = b'

/-- The chains hold the same blocks up to a height. -/
def Agree (bs bs' : List B) (n : Nat) : Prop := ∀ m ≤ n, bs[m]? = bs'[m]?

theorem Agree.symm {n : Nat} (h : Agree bs bs' n) : Agree bs' bs n := fun m hm => (h m hm).symm

theorem Agree.mono {m n : Nat} (h : Agree bs bs' n) (hmn : m ≤ n) : Agree bs bs' m :=
  fun k hk => h k (Nat.le_trans hk hmn)

theorem agree_of_hash {n : Nat} {b b' : B} (hl : Linked hash parent bs)
    (hl' : Linked hash parent bs') (hd : Distinguishes hash bs bs') (hb : bs[n]? = some b)
    (hb' : bs'[n]? = some b') (hh : hash b = hash b') : Agree bs bs' n := by
  induction n generalizing b b' with
  | zero =>
    intro m hm
    obtain rfl : m = 0 := by omega
    rw [hb, hb', hd b (List.mem_of_getElem? hb) b' (List.mem_of_getElem? hb') hh]
  | succ n ih =>
    obtain rfl := hd b (List.mem_of_getElem? hb) b' (List.mem_of_getElem? hb') hh
    obtain ⟨hlt, -⟩ := List.getElem?_eq_some_iff.mp hb
    obtain ⟨hlt', -⟩ := List.getElem?_eq_some_iff.mp hb'
    obtain ⟨p, hp⟩ : ∃ p, bs[n]? = some p := ⟨_, List.getElem?_eq_getElem (by omega)⟩
    obtain ⟨p', hp'⟩ : ∃ p', bs'[n]? = some p' := ⟨_, List.getElem?_eq_getElem (by omega)⟩
    have hparents : hash p = hash p' := (hl n p b hp hb).symm.trans (hl' n p' b hp' hb')
    intro m hm
    rcases Nat.lt_or_ge n m with hlt | hle
    · obtain rfl : m = n + 1 := by omega
      rw [hb, hb']
    · exact ih hp hp' hparents m hle

end HashChain
