import ArkSwap.Database
import ArkSwap.Lib.Join
import Mathlib.Data.List.Sort

/-! The chart of a pair: what was traded in each time bucket, joined with the
snapshot of the bucket. -/

namespace ArkSwap.GoInternal

structure ChartPoint where
  bucket : Nat
  volumeUSD : ℚ
  txCount : Nat
  token0PriceUSD : Option ℚ
  token1PriceUSD : Option ℚ
  tvlUSD : Option ℚ
  deriving DecidableEq

/-- A joined row. A bucket without swaps traded nothing; prices stay unknown. -/
def chartPoint (row : Option (Nat × ℚ × Nat) × Option PairSnapshot) : ChartPoint where
  bucket := (Join.key Prod.fst PairSnapshot.timestampBucket row).getD 0
  volumeUSD := (row.1.map fun v => v.2.1).getD 0
  txCount := (row.1.map fun v => v.2.2).getD 0
  token0PriceUSD := row.2.bind PairSnapshot.token0PriceUSD
  token1PriceUSD := row.2.bind PairSnapshot.token1PriceUSD
  tvlUSD := row.2.bind PairSnapshot.tvlUSD

namespace Database

def pairSwaps (db : Database) (pair : Address) : List Swap :=
  db.swaps.rows.filter fun s => s.pairAddress = pair

/-- The buckets that a pair traded in from a time on, each with its figures. -/
def vol (db : Database) (pair : Address) (bucketSeconds : Nat) (since : Int) :
    List (Nat × ℚ × Nat) :=
  (((db.pairSwaps pair).filter fun s => since ≤ s.timestamp).map fun s =>
    s.timestamp / bucketSeconds * bucketSeconds).dedup.map fun bucket =>
      (bucket, db.bucketVolume pair bucketSeconds since bucket)

/-- The snapshots of a pair whose buckets start from a time on. -/
def snap (db : Database) (pair : Address) (bucketSeconds : Nat) (since : Int) :
    List PairSnapshot :=
  db.pairSnapshots.rows.filter fun s =>
    s.pairAddress = pair ∧ s.bucketSeconds = bucketSeconds ∧ since ≤ s.timestampBucket

def chartBuckets (db : Database) (pair : Address) (bucketSeconds : Nat) (since : Int) :
    List ChartPoint :=
  ((Join.fullOuter Prod.fst PairSnapshot.timestampBucket (db.vol pair bucketSeconds since)
    (db.snap pair bucketSeconds since)).map chartPoint).insertionSort fun p q => p.bucket ≤ q.bucket

end Database

/-- The bucket size and the period of each interval that a chart is asked for. -/
def chartInterval (interval : String) : Except (Nat × String × String) (Nat × Int) :=
  if interval = "" ∨ interval = "1h" then .ok (bucketHour, 7 * 24 * 3600)
  else if interval = "1d" then .ok (bucketDay, 90 * 24 * 3600)
  else .error (400, "INVALID_INTERVAL", "interval must be 1h or 1d")

def pairChart (db : Database) (addr : Address) (interval : String) (now : Int) :
    Except (Nat × String × String) (List ChartPoint) :=
  match chartInterval interval with
  | .error refused => .error refused
  | .ok (bucket, window) => .ok (db.chartBuckets addr bucket (now - window))

/-- All of the pair's swaps in a bucket. -/
def Database.bucketSwaps (db : Database) (pair : Address) (bucketSeconds bucket : Nat) : List Swap :=
  (db.pairSwaps pair).filter fun s => bucket ≤ s.timestamp ∧ s.timestamp < bucket + bucketSeconds

/-- One point a bucket in the order of time, each with all of its swaps and with
the close of its snapshot where there is one. -/
structure ChartComplete (db : Database) (pair : Address) (bucketSeconds : Nat)
    (points : List ChartPoint) : Prop where
  increasing : (points.map ChartPoint.bucket).Pairwise (· < ·)
  volume : ∀ p ∈ points, p.volumeUSD = Database.sumUSD (db.bucketSwaps pair bucketSeconds p.bucket) ∧
    p.txCount = (db.bucketSwaps pair bucketSeconds p.bucket).length
  close : ∀ p ∈ points, ∀ row, db.pairSnapshots[(pair, bucketSeconds, p.bucket)]? = some row →
    p.token0PriceUSD = row.token0PriceUSD ∧ p.token1PriceUSD = row.token1PriceUSD ∧
      p.tvlUSD = row.tvlUSD

/-- Where a bucket straddles `since` and the pair traded in it from `since` on, it
did not trade in it before, and the close of the bucket is unknown. No row of a
bucket that does not start a bucket lies over a swap. -/
structure ChartWhole (db : Database) (pair : Address) (bucketSeconds : Nat) (since : Int) : Prop where
  traded : ∀ s ∈ db.pairSwaps pair, since ≤ s.timestamp →
    ((floorBucket s.timestamp bucketSeconds : Nat) : Int) < since →
    ∀ t ∈ db.pairSwaps pair,
      floorBucket t.timestamp bucketSeconds = floorBucket s.timestamp bucketSeconds →
        since ≤ t.timestamp
  closed : ∀ s ∈ db.pairSwaps pair, since ≤ s.timestamp →
    ((floorBucket s.timestamp bucketSeconds : Nat) : Int) < since →
    ∀ row, db.pairSnapshots[(pair, bucketSeconds, floorBucket s.timestamp bucketSeconds)]? = some row →
      row.token0PriceUSD = none ∧ row.token1PriceUSD = none ∧ row.tvlUSD = none
  aligned : ∀ (bucket : Nat) row, db.pairSnapshots[(pair, bucketSeconds, bucket)]? = some row →
    since ≤ bucket → ¬bucketSeconds ∣ bucket → db.bucketSwaps pair bucketSeconds bucket = []

section Points

variable {db : Database} {pair : Address} {size bucket : Nat} {since : Int} {p : ChartPoint}
  {row : PairSnapshot}

/-- A row of the chart stands for a bucket: traded in, or closed by a snapshot. -/
def Shown (db : Database) (pair : Address) (size : Nat) (since : Int) (bucket : Nat) : Prop :=
  (∃ s ∈ db.pairSwaps pair, since ≤ s.timestamp ∧ s.timestamp / size * size = bucket) ∨
    ∃ row, db.pairSnapshots[(pair, size, bucket)]? = some row ∧ since ≤ bucket

/-- The snapshot that the chart sees of a bucket. -/
def shownRow (db : Database) (pair : Address) (size : Nat) (since : Int) (bucket : Nat) :
    Option PairSnapshot :=
  if since ≤ bucket then db.pairSnapshots[(pair, size, bucket)]? else none

def pointAt (db : Database) (pair : Address) (size : Nat) (since : Int) (bucket : Nat) :
    ChartPoint where
  bucket := bucket
  volumeUSD := (db.bucketVolume pair size since bucket).1
  txCount := (db.bucketVolume pair size since bucket).2
  token0PriceUSD := (shownRow db pair size since bucket).bind PairSnapshot.token0PriceUSD
  token1PriceUSD := (shownRow db pair size since bucket).bind PairSnapshot.token1PriceUSD
  tvlUSD := (shownRow db pair size since bucket).bind PairSnapshot.tvlUSD

theorem mem_pairSwaps {s : Swap} :
    s ∈ db.pairSwaps pair ↔ s ∈ db.swaps.rows ∧ s.pairAddress = pair := by
  simp [Database.pairSwaps]

theorem mem_vol {v : Nat × ℚ × Nat} : v ∈ db.vol pair size since ↔
    (∃ s ∈ db.pairSwaps pair, since ≤ s.timestamp ∧ s.timestamp / size * size = v.1) ∧
      v = (v.1, db.bucketVolume pair size since v.1) := by
  unfold Database.vol
  simp only [List.mem_map, List.mem_dedup, List.mem_filter, decide_eq_true_eq]
  constructor
  · rintro ⟨bucket, ⟨s, ⟨hs, hsince⟩, hbucket⟩, rfl⟩
    exact ⟨⟨s, hs, hsince, hbucket⟩, rfl⟩
  · rintro ⟨⟨s, hs, hsince, hbucket⟩, hv⟩
    exact ⟨v.1, ⟨s, ⟨hs, hsince⟩, hbucket⟩, hv.symm⟩

theorem vol_nodup : ((db.vol pair size since).map Prod.fst).Nodup := by
  unfold Database.vol
  rw [List.map_map]
  exact (List.nodup_dedup _).map fun _ _ h => h

theorem mem_snap (hkeys : db.pairSnapshots.Keyed PairSnapshot.key) :
    row ∈ db.snap pair size since ↔
      db.pairSnapshots[(pair, size, row.timestampBucket)]? = some row ∧
        since ≤ row.timestampBucket := by
  unfold Database.snap
  rw [List.mem_filter, decide_eq_true_eq, Table.mem_rows]
  constructor
  · rintro ⟨⟨k, hk⟩, rfl, rfl, hsince⟩
    obtain rfl := hkeys k row hk
    exact ⟨hk, hsince⟩
  · rintro ⟨hrow, hsince⟩
    have hkey := hkeys _ row hrow
    exact ⟨⟨_, hrow⟩, congrArg Prod.fst hkey, congrArg (fun k => k.2.1) hkey, hsince⟩

theorem snap_nodup (hkeys : db.pairSnapshots.Keyed PairSnapshot.key) :
    ((db.snap pair size since).map PairSnapshot.timestampBucket).Nodup := by
  have hrows : ((db.snap pair size since).map PairSnapshot.key).Nodup :=
    hkeys.rows_nodup.sublist (List.filter_sublist.map _)
  have hbuckets : (db.snap pair size since).map PairSnapshot.key =
      ((db.snap pair size since).map PairSnapshot.timestampBucket).map fun b => (pair, size, b) := by
    rw [List.map_map]
    exact List.map_congr_left fun row hrow => hkeys _ row ((mem_snap hkeys).mp hrow).1
  rw [hbuckets] at hrows
  exact List.Nodup.of_map _ hrows

theorem bucketVolume_eq_zero
    (h : ¬∃ s ∈ db.pairSwaps pair, since ≤ s.timestamp ∧ s.timestamp / size * size = bucket) :
    db.bucketVolume pair size since bucket = (0, 0) := by
  have hnone : db.swaps.rows.filter (fun s => s.pairAddress = pair ∧ since ≤ s.timestamp ∧
      s.timestamp / size * size = bucket) = [] := by
    refine List.filter_eq_nil_iff.mpr fun s hs htraded => h ?_
    obtain ⟨hpair, hsince, hbucket⟩ := of_decide_eq_true htraded
    exact ⟨s, mem_pairSwaps.mpr ⟨hs, hpair⟩, hsince, hbucket⟩
  rw [Database.bucketVolume, hnone]
  rfl

theorem shownRow_eq_some (hkeys : db.pairSnapshots.Keyed PairSnapshot.key) :
    shownRow db pair size since bucket = some row ↔
      row ∈ db.snap pair size since ∧ row.timestampBucket = bucket := by
  rw [mem_snap hkeys, shownRow]
  constructor
  · intro h
    split at h
    · rename_i hsince
      have hbucket : row.timestampBucket = bucket := congrArg (fun k => k.2.2) (hkeys _ row h)
      rw [hbucket]
      exact ⟨⟨h, hsince⟩, rfl⟩
    · cases h
  · rintro ⟨⟨hget, hsince⟩, rfl⟩
    rw [if_pos hsince, hget]

theorem mem_chartBuckets (hkeys : db.pairSnapshots.Keyed PairSnapshot.key) :
    p ∈ db.chartBuckets pair size since ↔
      ∃ bucket, Shown db pair size since bucket ∧ p = pointAt db pair size since bucket := by
  unfold Database.chartBuckets
  rw [List.mem_insertionSort, List.mem_map]
  constructor
  · rintro ⟨x, hx, rfl⟩
    rcases Join.mem_fullOuter.mp hx with
      ⟨v, hv, row, hrow, hkey, rfl⟩ | ⟨v, hv, hmiss, rfl⟩ | ⟨row, hrow, hmiss, rfl⟩
    · obtain ⟨htraded, hfigures⟩ := mem_vol.mp hv
      refine ⟨v.1, Or.inl htraded, ?_⟩
      rw [pointAt, (shownRow_eq_some hkeys).mpr ⟨hrow, hkey.symm⟩, hfigures]
      rfl
    · obtain ⟨htraded, hfigures⟩ := mem_vol.mp hv
      have hnone : shownRow db pair size since v.1 = none := by
        refine Option.eq_none_iff_forall_ne_some.mpr fun row hrow => ?_
        obtain ⟨hmem, hkey⟩ := (shownRow_eq_some hkeys).mp hrow
        exact hmiss row hmem hkey.symm
      refine ⟨v.1, Or.inl htraded, ?_⟩
      rw [pointAt, hnone, hfigures]
      rfl
    · obtain ⟨hget, hsince⟩ := (mem_snap hkeys).mp hrow
      refine ⟨row.timestampBucket, Or.inr ⟨row, hget, hsince⟩, ?_⟩
      rw [pointAt, (shownRow_eq_some hkeys).mpr ⟨hrow, rfl⟩, bucketVolume_eq_zero]
      · rfl
      · intro htraded
        exact hmiss (row.timestampBucket, db.bucketVolume pair size since row.timestampBucket)
          (mem_vol.mpr ⟨htraded, rfl⟩) rfl
  · rintro ⟨bucket, hshown, rfl⟩
    by_cases htraded : ∃ s ∈ db.pairSwaps pair, since ≤ s.timestamp ∧
        s.timestamp / size * size = bucket
    · have hv : (bucket, db.bucketVolume pair size since bucket) ∈ db.vol pair size since :=
        mem_vol.mpr ⟨htraded, rfl⟩
      rcases hrow : shownRow db pair size since bucket with _ | row
      · refine ⟨(some _, none), Join.mem_fullOuter.mpr (Or.inr (Or.inl ⟨_, hv, ?_, rfl⟩)), ?_⟩
        · intro row hmem hkey
          rw [(shownRow_eq_some hkeys).mpr ⟨hmem, hkey.symm⟩] at hrow
          cases hrow
        · rw [pointAt, hrow]
          rfl
      · obtain ⟨hmem, hkey⟩ := (shownRow_eq_some hkeys).mp hrow
        refine ⟨(some _, some row), Join.mem_fullOuter.mpr
          (Or.inl ⟨_, hv, row, hmem, hkey.symm, rfl⟩), ?_⟩
        rw [pointAt, hrow]
        rfl
    · rcases hshown with hshown | ⟨row, hget, hsince⟩
      · exact (htraded hshown).elim
      · have hrow : shownRow db pair size since bucket = some row := by
          rw [shownRow, if_pos hsince, hget]
        obtain ⟨hmem, rfl⟩ := (shownRow_eq_some hkeys).mp hrow
        refine ⟨(none, some row), Join.mem_fullOuter.mpr (Or.inr (Or.inr ⟨row, hmem, ?_, rfl⟩)), ?_⟩
        · intro v hv hkey
          obtain ⟨hv, -⟩ := mem_vol.mp hv
          rw [hkey] at hv
          exact htraded hv
        · rw [pointAt, hrow, bucketVolume_eq_zero htraded]
          rfl

theorem joined_nodup (hkeys : db.pairSnapshots.Keyed PairSnapshot.key) :
    (((Join.fullOuter Prod.fst PairSnapshot.timestampBucket (db.vol pair size since)
      (db.snap pair size since)).map chartPoint).map ChartPoint.bucket).Nodup := by
  have hvol : ((db.vol pair size since).map Prod.fst).Nodup := vol_nodup
  have hsnap : ((db.snap pair size since).map PairSnapshot.timestampBucket).Nodup := snap_nodup hkeys
  obtain ⟨keys, hnodup, hjoined⟩ := Join.fullOuter_key hvol hsnap
  have hbuckets : ((Join.fullOuter Prod.fst PairSnapshot.timestampBucket (db.vol pair size since)
      (db.snap pair size since)).map chartPoint).map ChartPoint.bucket =
        (keys.map some).map fun k => k.getD 0 := by
    rw [← hjoined, List.map_map, List.map_map]
    rfl
  rw [hbuckets, List.map_map]
  exact hnodup.map fun _ _ h => h

theorem chartBuckets_increasing (hkeys : db.pairSnapshots.Keyed PairSnapshot.key) :
    ((db.chartBuckets pair size since).map ChartPoint.bucket).Pairwise (· < ·) := by
  have htotal : Std.Total fun p q : ChartPoint => p.bucket ≤ q.bucket := ⟨fun _ _ => le_total _ _⟩
  have htrans : IsTrans ChartPoint fun p q => p.bucket ≤ q.bucket := ⟨fun _ _ _ => le_trans⟩
  have hsorted : ((db.chartBuckets pair size since).map ChartPoint.bucket).Pairwise (· ≤ ·) :=
    List.pairwise_map.mpr (List.pairwise_insertionSort _ _)
  have hnodup : ((db.chartBuckets pair size since).map ChartPoint.bucket).Nodup :=
    ((List.perm_insertionSort _ _).map _).nodup_iff.mpr (joined_nodup hkeys)
  exact (hsorted.and hnodup).imp fun h => lt_of_le_of_ne h.1 h.2

theorem mem_bucketSwaps {s : Swap} : s ∈ db.bucketSwaps pair size bucket ↔
    s ∈ db.pairSwaps pair ∧ bucket ≤ s.timestamp ∧ s.timestamp < bucket + size := by
  simp [Database.bucketSwaps]

/-- The swaps that a bucket of the chart counts, among all of the bucket. -/
theorem bucketVolume_eq (hsize : 0 < size) : db.bucketVolume pair size since bucket =
    (Database.sumUSD ((db.bucketSwaps pair size bucket).filter fun s =>
        since ≤ s.timestamp ∧ s.timestamp / size * size = bucket),
      ((db.bucketSwaps pair size bucket).filter fun s =>
        since ≤ s.timestamp ∧ s.timestamp / size * size = bucket).length) := by
  have hsame : db.swaps.rows.filter (fun s => s.pairAddress = pair ∧ since ≤ s.timestamp ∧
      s.timestamp / size * size = bucket) =
        (db.bucketSwaps pair size bucket).filter fun s =>
          since ≤ s.timestamp ∧ s.timestamp / size * size = bucket := by
    rw [Database.bucketSwaps, Database.pairSwaps, List.filter_filter, List.filter_filter]
    refine List.filter_congr fun s _ => ?_
    have hin : s.timestamp / size * size = bucket →
        bucket ≤ s.timestamp ∧ s.timestamp < bucket + size := by
      rintro rfl
      have hdiv := Nat.div_add_mod s.timestamp size
      have hmod := Nat.mod_lt s.timestamp hsize
      rw [Nat.mul_comm] at hdiv
      omega
    grind
  rw [Database.bucketVolume, hsame]

/-- A bucket counts all of its swaps exactly when each is recent enough and in a
bucket of the chart. -/
theorem bucketVolume_complete (hsize : 0 < size) :
    ((db.bucketVolume pair size since bucket).1 =
        Database.sumUSD (db.bucketSwaps pair size bucket) ∧
      (db.bucketVolume pair size since bucket).2 = (db.bucketSwaps pair size bucket).length) ↔
    ∀ s ∈ db.bucketSwaps pair size bucket,
      since ≤ s.timestamp ∧ s.timestamp / size * size = bucket := by
  rw [bucketVolume_eq hsize]
  constructor
  · rintro ⟨-, hcount⟩ s hs
    exact of_decide_eq_true (List.length_filter_eq_length_iff.mp hcount s hs)
  · intro h
    rw [List.filter_eq_self.mpr fun s hs => decide_eq_true (h s hs)]
    exact ⟨rfl, rfl⟩

theorem pointAt_close : (∀ row, db.pairSnapshots[(pair, size, bucket)]? = some row →
      (pointAt db pair size since bucket).token0PriceUSD = row.token0PriceUSD ∧
        (pointAt db pair size since bucket).token1PriceUSD = row.token1PriceUSD ∧
        (pointAt db pair size since bucket).tvlUSD = row.tvlUSD) ↔
    (bucket < since → ∀ row, db.pairSnapshots[(pair, size, bucket)]? = some row →
      row.token0PriceUSD = none ∧ row.token1PriceUSD = none ∧ row.tvlUSD = none) := by
  unfold pointAt shownRow
  by_cases hsince : since ≤ bucket
  · rw [if_pos hsince]
    refine ⟨fun _ hlt => (not_lt.mpr hsince hlt).elim, fun _ row hrow => ?_⟩
    rw [hrow]
    exact ⟨rfl, rfl, rfl⟩
  · rw [if_neg hsince]
    constructor
    · intro h _ row hrow
      obtain ⟨h₀, h₁, htvl⟩ := h row hrow
      exact ⟨h₀.symm, h₁.symm, htvl.symm⟩
    · intro h row hrow
      obtain ⟨h₀, h₁, htvl⟩ := h (not_le.mp hsince) row hrow
      exact ⟨h₀.symm, h₁.symm, htvl.symm⟩

/-- Bucket by bucket: every swap of it is counted, and its close is seen. -/
theorem chartComplete_iff (hkeys : db.pairSnapshots.Keyed PairSnapshot.key) (hsize : 0 < size) :
    ChartComplete db pair size (db.chartBuckets pair size since) ↔
      ∀ bucket, Shown db pair size since bucket →
        (∀ s ∈ db.bucketSwaps pair size bucket,
          since ≤ s.timestamp ∧ s.timestamp / size * size = bucket) ∧
        (bucket < since → ∀ row, db.pairSnapshots[(pair, size, bucket)]? = some row →
          row.token0PriceUSD = none ∧ row.token1PriceUSD = none ∧ row.tvlUSD = none) := by
  constructor
  · intro h bucket hshown
    have hmem := (mem_chartBuckets hkeys).mpr ⟨bucket, hshown, rfl⟩
    exact ⟨(bucketVolume_complete hsize).mp (h.volume _ hmem), pointAt_close.mp (h.close _ hmem)⟩
  · intro h
    refine ⟨chartBuckets_increasing hkeys, fun p hp => ?_, fun p hp => ?_⟩
    · obtain ⟨bucket, hshown, rfl⟩ := (mem_chartBuckets hkeys).mp hp
      exact (bucketVolume_complete hsize).mpr (h bucket hshown).1
    · obtain ⟨bucket, hshown, rfl⟩ := (mem_chartBuckets hkeys).mp hp
      exact pointAt_close.mpr (h bucket hshown).2

theorem mem_bucketSwaps_floor {s : Swap} (hsize : 0 < size) (hs : s ∈ db.pairSwaps pair) :
    s ∈ db.bucketSwaps pair size (floorBucket s.timestamp size) := by
  refine mem_bucketSwaps.mpr ⟨hs, ?_⟩
  have hmod := Nat.mod_lt s.timestamp hsize
  have hle := Nat.mod_le s.timestamp size
  rw [floorBucket, if_neg hsize.ne']
  omega

theorem bucket_of_mem {s : Swap} (hsize : 0 < size) (haligned : size ∣ bucket)
    (hs : s ∈ db.bucketSwaps pair size bucket) : s.timestamp / size * size = bucket := by
  obtain ⟨k, rfl⟩ := haligned
  obtain ⟨-, hle, hlt⟩ := mem_bucketSwaps.mp hs
  have hdiv : s.timestamp / size = k := by
    rw [Nat.div_eq_iff hsize, Nat.mul_comm k]
    omega
  rw [hdiv, Nat.mul_comm]

/-- The chart is complete exactly when no bucket is cut: `since` may fall into a
bucket that was traded in after it, and the chart then misses what came before. -/
theorem chartBuckets_complete_iff (db : Database)
    (hkeys : db.pairSnapshots.Keyed PairSnapshot.key) (pair : Address) (bucketSeconds : Nat)
    (hsize : bucketSeconds = bucketHour ∨ bucketSeconds = bucketDay) (since : Int) :
    ChartComplete db pair bucketSeconds (db.chartBuckets pair bucketSeconds since) ↔
      ChartWhole db pair bucketSeconds since := by
  have hpos : 0 < bucketSeconds := by
    rcases hsize with rfl | rfl <;> decide
  rw [chartComplete_iff hkeys hpos]
  constructor
  · intro h
    have hcut : ∀ s ∈ db.pairSwaps pair, since ≤ s.timestamp →
        Shown db pair bucketSeconds since (floorBucket s.timestamp bucketSeconds) :=
      fun s hs hsince => Or.inl ⟨s, hs, hsince, (floorBucket_eq hpos).symm⟩
    refine ⟨fun s hs hsince _ t ht hfloor => ?_, fun s hs hsince hlt => ?_, ?_⟩
    · have hmem := mem_bucketSwaps_floor hpos ht
      rw [hfloor] at hmem
      exact ((h _ (hcut s hs hsince)).1 t hmem).1
    · exact (h _ (hcut s hs hsince)).2 hlt
    · intro bucket row hrow hsince haligned
      refine List.eq_nil_iff_forall_not_mem.mpr fun s hs => haligned ?_
      rw [← ((h bucket (Or.inr ⟨row, hrow, hsince⟩)).1 s hs).2]
      exact Nat.dvd_mul_left bucketSeconds _
  · rintro ⟨htraded, hclosed, haligned⟩ bucket hshown
    have hrecent : since ≤ bucket → bucketSeconds ∣ bucket →
        ∀ s ∈ db.bucketSwaps pair bucketSeconds bucket,
          since ≤ s.timestamp ∧ s.timestamp / bucketSeconds * bucketSeconds = bucket := by
      intro hsince hdvd s hs
      have hle := (mem_bucketSwaps.mp hs).2.1
      exact ⟨by omega, bucket_of_mem hpos hdvd hs⟩
    rcases hshown with ⟨s, hs, hsince, rfl⟩ | ⟨row, hrow, hsince⟩
    · by_cases hstart : since ≤ (s.timestamp / bucketSeconds * bucketSeconds : Nat)
      · exact ⟨hrecent hstart (Nat.dvd_mul_left bucketSeconds _),
          fun hlt => (not_lt.mpr hstart hlt).elim⟩
      · have hlt := not_le.mp hstart
        rw [← floorBucket_eq hpos] at hlt ⊢
        refine ⟨fun t ht => ?_, fun _ => hclosed s hs hsince hlt⟩
        have hdvd : bucketSeconds ∣ floorBucket s.timestamp bucketSeconds := by
          rw [floorBucket_eq hpos]
          exact Nat.dvd_mul_left bucketSeconds _
        have hbucket := bucket_of_mem hpos hdvd ht
        exact ⟨htraded s hs hsince hlt t (mem_bucketSwaps.mp ht).1
          ((floorBucket_eq hpos).trans hbucket), hbucket⟩
    · refine ⟨?_, fun hlt => (not_lt.mpr hsince hlt).elim⟩
      by_cases hdvd : bucketSeconds ∣ bucket
      · exact hrecent hsince hdvd
      · rw [haligned bucket row hrow hsince hdvd]
        exact fun s hs => (List.not_mem_nil hs).elim

end Points

def tradedAt (logIndex timestamp : Nat) : Swap :=
  { chainID := 9000, txHash := 1, logIndex := logIndex, blockNumber := 177700, blockHash := 2,
    timestamp := timestamp, pairAddress := 9, sender := 5, recipient := 6, amount0In := 1,
    amount1In := 0, amount0Out := 0, amount1Out := 1, direction := .zeroToOne,
    tokenInAddress := some 3, tokenOutAddress := some 4, amountIn := some 1, amountOut := some 1,
    amountUSD := some 25 }

def closedAt (timestamp : Nat) : PairSnapshot :=
  { pairAddress := 9, bucketSeconds := bucketHour, timestampBucket := floorBucket timestamp bucketHour,
    reserve0 := 1000, reserve1 := 2000, token0PriceUSD := some 2, token1PriceUSD := some 1,
    tvlUSD := some 4000 }

/-- Two swaps in one hour and its close. -/
def tradedHour : Database :=
  { Database.empty with
    swaps := ((∅ : Table (Word × Nat) Swap).insert (1, 0) (tradedAt 0 1788405000)).insert (1, 1)
      (tradedAt 1 1788407000)
    pairSnapshots := (∅ : Table (Address × Nat × Nat) PairSnapshot).insert
      (closedAt 1788407000).key (closedAt 1788407000) }

theorem tradedHour_keyed : tradedHour.pairSnapshots.Keyed PairSnapshot.key :=
  Table.forall_get.mpr (by decide +kernel)

theorem tradedHour_pairSwaps :
    tradedHour.pairSwaps 9 = [tradedAt 0 1788405000, tradedAt 1 1788407000] := by decide +kernel

theorem tradedHour_complete : ChartComplete tradedHour 9 bucketHour
    (tradedHour.chartBuckets 9 bucketHour 1788404400) := by
  have hfloor : ∀ s ∈ tradedHour.pairSwaps 9, floorBucket s.timestamp bucketHour = 1788404400 := by
    rw [tradedHour_pairSwaps]
    decide
  refine (chartBuckets_complete_iff tradedHour tradedHour_keyed 9 bucketHour (Or.inl rfl)
    1788404400).mpr ⟨fun s hs _ hlt => ?_, fun s hs _ hlt => ?_, fun bucket row hrow _ haligned => ?_⟩
  · rw [hfloor s hs] at hlt
    exact absurd hlt (by decide)
  · rw [hfloor s hs] at hlt
    exact absurd hlt (by decide)
  · have hkey := tradedHour_keyed _ row hrow
    have hrow' : row = closedAt 1788407000 := by
      rw [tradedHour, Table.get_insert] at hrow
      split at hrow
      · exact (Option.some.inj hrow).symm
      · cases hrow
    rw [hrow'] at hkey
    obtain rfl : bucket = 1788404400 := congrArg (fun k => k.2.2) hkey.symm
    exact absurd (by decide) haligned

/-- A chart that is asked for in the middle of an hour of a week later shows one of
the two swaps of the hour, and no close. -/
theorem tradedHour_cut : ∃ points, pairChart tradedHour 9 "1h" 1789010700 = .ok points ∧
    ¬ChartComplete tradedHour 9 bucketHour points := by
  refine ⟨[⟨1788404400, 25, 1, none, none, none⟩], by decide +kernel, fun h => ?_⟩
  have hclose := (h.close _ (List.mem_singleton_self _) (closedAt 1788407000) (by decide +kernel)).1
  cases hclose

end ArkSwap.GoInternal
