import ArkSwap.IndexerRange

/-! A table fed from logs holds a row only for a log of the chain, and, up to a
point, one for every such log. Inserting a row that is not yet there, changing
what the log does not determine, and deleting from a height on keep this. -/

namespace ArkSwap.GoInternal

/-- How a table is fed: the row of a log, the part of a stored row that the log
determines, and its key. -/
structure Feed (K R : Type) where
  rowOf : Block → Log → Option R
  raw : R → R
  keyOf : R → K
  keyOf_raw : ∀ row, keyOf (raw row) = keyOf row
  concerns : ∀ b l r, rowOf b l = some r → l.topic = some .pairCreated ∨ Chain.PairTopic l

namespace Feed

variable {K R : Type} {feed : Feed K R} {cfg : Config} {c c' : Chain} {chains : Set Chain}

/-- The chain has a relevant log, and this is its row. -/
structure Entry (feed : Feed K R) (cfg : Config) (c : Chain) (l : Log) (b : Block) (r : R) :
    Prop where
  relevant : c.Relevant cfg l
  header : c.headerAt l.blockNumber = some b
  row : feed.rowOf b l = some r

theorem Entry.congr {n : Nat} {l : Log} {b : Block} {r : R} (hnet : Chain.Network cfg chains)
    (hc : c ∈ chains) (h : feed.Entry cfg c l b r) (hagree : HashChain.Agree c c' n)
    (hl : l.blockNumber ≤ n) : feed.Entry cfg c' l b r where
  relevant := hnet.relevant_congr hc h.relevant (hagree.mono hl)
  header := by
    rw [← Chain.headerAt_congr (hagree _ hl)]
    exact h.header
  row := h.row

section Sets

variable [Ord K] [Std.TransOrd K] {rows : Table K R} {S T : Log → Prop}

/-- Every row is that of a log in the given set. -/
def Sound (feed : Feed K R) (cfg : Config) (c : Chain) (S : Log → Prop) (rows : Table K R) : Prop :=
  ∀ k row, rows[k]? = some row → feed.keyOf row = k ∧ ∃ l b, feed.Entry cfg c l b (feed.raw row) ∧ S l

/-- Every log in the given set has its row. -/
def Complete (feed : Feed K R) (cfg : Config) (c : Chain) (S : Log → Prop) (rows : Table K R) :
    Prop :=
  ∀ l b r, feed.Entry cfg c l b r → S l → ∃ row, rows[feed.keyOf r]? = some row

theorem Sound.empty : feed.Sound cfg c S ∅ := by
  intro k row h
  simp at h

theorem Sound.mono (h : feed.Sound cfg c S rows) (hST : ∀ l, S l → T l) : feed.Sound cfg c T rows := by
  intro k row hrow
  obtain ⟨hkey, l, b, hentry, hl⟩ := h k row hrow
  exact ⟨hkey, l, b, hentry, hST l hl⟩

theorem Complete.mono (h : feed.Complete cfg c S rows)
    (hTS : ∀ l, c.Relevant cfg l → T l → S l) : feed.Complete cfg c T rows := by
  intro l b r hentry hl
  exact h l b r hentry (hTS l hentry.relevant hl)

theorem Complete.skip {l : Log} (h : feed.Complete cfg c S rows)
    (hnone : ∀ b r, ¬feed.Entry cfg c l b r) : feed.Complete cfg c (fun m => S m ∨ m = l) rows := by
  rintro m b r hentry (hm | rfl)
  · exact h m b r hentry hm
  · exact (hnone b r hentry).elim

theorem Sound.congr {n : Nat} (hnet : Chain.Network cfg chains) (hc : c ∈ chains)
    (hagree : HashChain.Agree c c' n) (hS : ∀ l, S l → l.blockNumber ≤ n)
    (h : feed.Sound cfg c S rows) : feed.Sound cfg c' S rows := by
  intro k row hrow
  obtain ⟨hkey, l, b, hentry, hl⟩ := h k row hrow
  exact ⟨hkey, l, b, hentry.congr hnet hc hagree (hS l hl), hl⟩

theorem Complete.congr {n : Nat} (hnet : Chain.Network cfg chains) (hc' : c' ∈ chains)
    (hagree : HashChain.Agree c c' n) (hS : ∀ l, S l → l.blockNumber ≤ n)
    (h : feed.Complete cfg c S rows) : feed.Complete cfg c' S rows := by
  intro l b r hentry hl
  exact h l b r (hentry.congr hnet hc' hagree.symm (hS l hl)) hl

end Sets

section Updates

variable [Ord K] [Std.TransOrd K] [Std.LawfulEqOrd K] {rows : Table K R} {S T : Log → Prop}

theorem Sound.deleteWhere {p : K → R → Bool} (h : feed.Sound cfg c S rows)
    (hp : ∀ l b row, feed.Entry cfg c l b (feed.raw row) → S l → p (feed.keyOf row) row = false →
      T l) : feed.Sound cfg c T (rows.deleteWhere p) := by
  intro k row hrow
  obtain ⟨hget, hkeep⟩ := Table.get_deleteWhere.mp hrow
  obtain ⟨hkey, l, b, hentry, hl⟩ := h k row hget
  rw [← hkey] at hkeep
  exact ⟨hkey, l, b, hentry, hp l b row hentry hl hkeep⟩

theorem Complete.deleteWhere {p : K → R → Bool} (h : feed.Complete cfg c S rows)
    (hTS : ∀ l, T l → S l)
    (hp : ∀ l b r row, feed.Entry cfg c l b r → T l → rows[feed.keyOf r]? = some row →
      p (feed.keyOf r) row = false) : feed.Complete cfg c T (rows.deleteWhere p) := by
  intro l b r hentry hl
  obtain ⟨row, hget⟩ := h l b r hentry (hTS l hl)
  exact ⟨row, Table.get_deleteWhere.mpr ⟨hget, hp l b r row hentry hl hget⟩⟩

variable [DecidableEq K]

theorem Sound.insertIfNew {row : R} {l : Log} {b : Block} (h : feed.Sound cfg c S rows)
    (hentry : feed.Entry cfg c l b (feed.raw row)) (hl : S l) :
    feed.Sound cfg c S (rows.insertIfNew (feed.keyOf row) row) := by
  intro k row' hrow
  rw [Table.get_insertIfNew] at hrow
  split at hrow
  · rename_i hk
    obtain rfl := Option.some.inj hrow
    exact ⟨hk.1.symm, l, b, hentry, hl⟩
  · exact h k row' hrow

theorem Sound.modify {k : K} {f : R → R} (h : feed.Sound cfg c S rows)
    (hf : ∀ row, feed.raw (f row) = feed.raw row) : feed.Sound cfg c S (rows.modify k f) := by
  intro k' row' hrow
  rw [Table.get_modify] at hrow
  split at hrow
  · rename_i hk
    obtain ⟨row, hget, rfl⟩ := Option.map_eq_some_iff.mp hrow
    rw [← feed.keyOf_raw, hf, feed.keyOf_raw, hk]
    exact h k row hget
  · exact h k' row' hrow

theorem Complete.insertIfNew {k : K} {row : R} (h : feed.Complete cfg c S rows) :
    feed.Complete cfg c S (rows.insertIfNew k row) := by
  intro l b r hentry hl
  obtain ⟨row', hget⟩ := h l b r hentry hl
  rw [Table.get_insertIfNew]
  split
  · exact ⟨row, rfl⟩
  · exact ⟨row', hget⟩

theorem Complete.insertIfNew_self {l : Log} (h : feed.Complete cfg c S rows) (row : R)
    (hrow : ∀ b r, feed.Entry cfg c l b r → feed.keyOf r = feed.keyOf row) :
    feed.Complete cfg c (fun m => S m ∨ m = l) (rows.insertIfNew (feed.keyOf row) row) := by
  rintro m b r hentry (hm | rfl)
  · exact h.insertIfNew m b r hentry hm
  · rw [hrow b r hentry, Table.get_insertIfNew]
    split
    · exact ⟨row, rfl⟩
    · rename_i hne
      rw [not_and] at hne
      exact Option.ne_none_iff_exists'.mp (hne rfl)

theorem Complete.modify {k : K} {f : R → R} (h : feed.Complete cfg c S rows) :
    feed.Complete cfg c S (rows.modify k f) := by
  intro l b r hentry hl
  obtain ⟨row, hget⟩ := h l b r hentry hl
  rw [Table.get_modify]
  split
  · rename_i hk
    rw [← hk, hget]
    exact ⟨f row, rfl⟩
  · exact ⟨row, hget⟩

end Updates

end Feed

end ArkSwap.GoInternal
