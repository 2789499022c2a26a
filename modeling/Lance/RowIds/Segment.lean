import Lance.Library.WordArith
import Lance.RowIds.EncodedArray
import Lance.RowIds.Bitmap

/-! `U64Segment`: a run of distinct row ids kept as a range, a range with a
few holes, a range with a bitmap, a sorted array or an array, and
`from_slice`, which measures a list and picks the representation a cost model
finds smallest. Each read of the source is a function here. A panic (an index
past the bytes of a bitmap, an `unwrap` of `None`) is the outer `none`.

The build is chosen per path. The reads a sequence makes of a segment (`len`,
`get`, `iter`, `position`, `contains`) keep a release build's wrapping
arithmetic, so that `len` is total; a debug build differs from them only on a
segment whose range runs backwards, has fewer slots than holes or cleared bits,
or is shorter than its bitmap, which no writer of a segment builds. The edits
`RowIdSequence` makes through a segment, `delete` and `mask`, follow a debug
build, as the sequence's own arithmetic does. -/

namespace Lance.RowIds

open Lance.Library

/-- `Range<u64>`: the values `start..end`, written `start..stop` here. -/
structure U64Range where
  start : UInt64
  stop : UInt64
  deriving DecidableEq, Repr

namespace U64Range

/-- `Range::contains`. -/
def contains (range : U64Range) (val : UInt64) : Bool := range.start ≤ val && val < range.stop

/-- `Range::is_empty`. -/
def isEmpty (range : U64Range) : Bool := !(range.start < range.stop)

/-- The values the range iterates, in order. -/
def values (range : U64Range) : List UInt64 :=
  (List.range (range.stop.toNat - range.start.toNat)).map fun k => range.start + UInt64.ofNat k

@[simp] theorem length_values (span : U64Range) : span.values.length = span.stop.toNat - span.start.toNat := by
  simp [values]

theorem getElem_values (span : U64Range) {j : Nat} (inside : j < span.values.length) :
    span.values[j] = span.start + UInt64.ofNat j := by
  simp [values]

theorem toNat_getElem_values (span : U64Range) {j : Nat} (inside : j < span.values.length) :
    span.values[j].toNat = span.start.toNat + j := by
  have below := span.stop.toNat_lt
  rw [getElem_values, toNat_add_ofNat (by simp at inside; omega)]

theorem toNat_getElem_values_sub (span : U64Range) {j : Nat} (inside : j < span.values.length) :
    (span.values[j] - span.start).toNat = j := by
  have low : span.start ≤ span.values[j] := by
    rw [UInt64.le_iff_toNat_le, toNat_getElem_values span inside]
    omega
  rw [UInt64.toNat_sub_of_le _ _ low, toNat_getElem_values span inside]
  omega

theorem mem_values (span : U64Range) (x : UInt64) : x ∈ span.values ↔ span.start ≤ x ∧ x < span.stop := by
  rw [List.mem_iff_getElem]
  constructor
  · rintro ⟨j, inside, rfl⟩
    have value := toNat_getElem_values span inside
    have bound : j < span.stop.toNat - span.start.toNat := by simpa using inside
    rw [UInt64.le_iff_toNat_le, UInt64.lt_iff_toNat_lt, value]
    omega
  · rintro ⟨low, high⟩
    have offset := UInt64.toNat_sub_of_le _ _ low
    have := UInt64.le_iff_toNat_le.mp low
    have := UInt64.lt_iff_toNat_lt.mp high
    have inside : (x - span.start).toNat < span.values.length := by
      rw [length_values]
      omega
    refine ⟨(x - span.start).toNat, inside, ?_⟩
    rw [getElem_values, UInt64.ofNat_toNat]
    grind

theorem mem_values_iff_le (span : U64Range) (nonempty : span.start < span.stop) (x : UInt64) :
    x ∈ span.values ↔ span.start ≤ x ∧ x ≤ span.stop - 1 := by
  have positive := UInt64.lt_iff_toNat_lt.mp nonempty
  have last : (span.stop - 1).toNat = span.stop.toNat - 1 := by
    rw [UInt64.toNat_sub_of_le _ _ (UInt64.le_iff_toNat_le.mpr (by simp; omega))]
    simp
  simp only [mem_values, UInt64.lt_iff_toNat_lt, UInt64.le_iff_toNat_le, last]
  omega

theorem contains_eq (span : U64Range) (x : UInt64) : span.contains x = decide (x ∈ span.values) := by
  rw [contains, Bool.eq_iff_iff, decide_eq_true_iff, mem_values]
  simp

theorem pairwise_values (span : U64Range) : span.values.Pairwise (· < ·) := by
  rw [List.pairwise_iff_getElem]
  intro i j iInside jInside early
  rw [UInt64.lt_iff_toNat_lt, toNat_getElem_values span iInside, toNat_getElem_values span jInside]
  omega

end U64Range

def inclusiveValues (lo hi : UInt64) : List UInt64 :=
  (List.range (hi.toNat + 1 - lo.toNat)).map fun k => lo + UInt64.ofNat k

theorem inclusiveValues_eq {lo hi : UInt64} (fits : hi.toNat + 1 < 2 ^ 64) :
    inclusiveValues lo hi = (⟨lo, hi + 1⟩ : U64Range).values := by
  rw [inclusiveValues, U64Range.values, toNat_add_of_lt (by simpa using fits)]
  rfl

/-- `U64Segment`. -/
inductive U64Segment where
  | range (range : U64Range)
  | rangeWithHoles (range : U64Range) (holes : EncodedU64Array)
  | rangeWithBitmap (range : U64Range) (bitmap : Bitmap)
  | sortedArray (array : EncodedU64Array)
  | array (array : EncodedU64Array)
  deriving DecidableEq, Repr

/-- `RowIdSequence`: the row ids of a fragment, segment after segment. -/
structure RowIdSequence where
  segments : List U64Segment
  deriving DecidableEq, Repr

structure SegmentStats where
  min : UInt64
  max : UInt64
  count : Nat
  sorted : Bool
  deriving DecidableEq, Repr

namespace SegmentStats

/-- `n_holes`, in `u128`: the slots of `[min, max]` no value fills. -/
def nHoles (stats : SegmentStats) : Nat :=
  if stats.count = 0 then 0
  else u128Sub (stats.max.toNat - stats.min.toNat + 1) stats.count

end SegmentStats

namespace U64Segment

/-- One value of `compute_stats`'s loop: the running `max` is updated before
the order test reads it. -/
def statsStep (stats : SegmentStats) (val : UInt64) : SegmentStats :=
  let count := stats.count + 1
  let min := if val < stats.min then val else stats.min
  let max := if val > stats.max then val else stats.max
  let sorted := if stats.sorted && decide (count > 1) && decide (val < max) then false else stats.sorted
  ⟨min, max, count, sorted⟩

def computeStats (values : List UInt64) : SegmentStats :=
  let stats := values.foldl statsStep ⟨0xFFFFFFFFFFFFFFFF, 0, 0, true⟩
  if stats.count = 0 then { stats with min := 0, max := 0 } else stats

/-- What the loop of `compute_stats` knows after the values `seen`: their
count, their least and greatest (the starting `u64::MAX` and `0` while there
are none), and that the order flag stays up only while no value is below one
before it. -/
structure StatsInv (stats : SegmentStats) (seen : List UInt64) : Prop where
  count_eq : stats.count = seen.length
  low : ∀ v ∈ seen, stats.min ≤ v
  min_mem : stats.min ∈ seen ∨ (seen = [] ∧ stats.min = 0xFFFFFFFFFFFFFFFF)
  high : ∀ v ∈ seen, v ≤ stats.max
  max_mem : stats.max ∈ seen ∨ (seen = [] ∧ stats.max = 0)
  sorted : stats.sorted = true → seen.Pairwise (· ≤ ·)

theorem statsInv_start : StatsInv ⟨0xFFFFFFFFFFFFFFFF, 0, 0, true⟩ [] :=
  ⟨rfl, by simp, .inr ⟨rfl, rfl⟩, by simp, .inr ⟨rfl, rfl⟩, fun _ => List.Pairwise.nil⟩

section StatsStep

variable (stats : SegmentStats) (val : UInt64)

@[simp] theorem statsStep_count : (statsStep stats val).count = stats.count + 1 := rfl

@[simp] theorem statsStep_min : (statsStep stats val).min = if val < stats.min then val else stats.min := rfl

@[simp] theorem statsStep_max : (statsStep stats val).max = if val > stats.max then val else stats.max := rfl

theorem statsStep_sorted :
    (statsStep stats val).sorted =
      if stats.sorted && decide (stats.count + 1 > 1) && decide (val < (statsStep stats val).max) then false
      else stats.sorted := rfl

end StatsStep

/-- One value of the loop keeps the invariant. -/
theorem StatsInv.step {stats : SegmentStats} {seen : List UInt64} (inv : StatsInv stats seen) (val : UInt64) :
    StatsInv (statsStep stats val) (seen ++ [val]) := by
  have atMost : val ≤ 0xFFFFFFFFFFFFFFFF := UInt64.le_iff_toNat_le.mpr (Nat.le_of_lt_succ val.toNat_lt)
  have atLeast : 0 ≤ val := UInt64.le_iff_toNat_le.mpr (Nat.zero_le _)
  constructor
  · simp [inv.count_eq]
  · intro v member
    rw [List.mem_append, List.mem_singleton] at member
    rw [statsStep_min]
    split
    · rcases member with old | rfl
      · exact UInt64.le_of_lt (UInt64.lt_of_lt_of_le ‹_› (inv.low v old))
      · exact UInt64.le_refl _
    · rcases member with old | rfl
      · exact inv.low v old
      · exact UInt64.not_lt.mp ‹_›
  · rw [statsStep_min, List.mem_append, List.mem_singleton]
    split
    · exact .inl (.inr rfl)
    · rename_i notBelow
      rcases inv.min_mem with old | ⟨_, top⟩
      · exact .inl (.inl old)
      · -- nothing seen yet: only `u64::MAX` itself is not below the start
        rw [top] at notBelow ⊢
        exact .inl (.inr (UInt64.le_antisymm (UInt64.not_lt.mp notBelow) atMost))
  · intro v member
    rw [List.mem_append, List.mem_singleton] at member
    rw [statsStep_max]
    split
    · rcases member with old | rfl
      · exact UInt64.le_of_lt (UInt64.lt_of_le_of_lt (inv.high v old) ‹_›)
      · exact UInt64.le_refl _
    · rcases member with old | rfl
      · exact inv.high v old
      · exact UInt64.not_lt.mp ‹_›
  · rw [statsStep_max, List.mem_append, List.mem_singleton]
    split
    · exact .inl (.inr rfl)
    · rename_i notAbove
      rcases inv.max_mem with old | ⟨_, bottom⟩
      · exact .inl (.inl old)
      · rw [bottom] at notAbove ⊢
        exact .inl (.inr (UInt64.le_antisymm atLeast (UInt64.not_lt.mp notAbove)))
  · intro up
    rw [statsStep_sorted] at up
    by_cases test : (stats.sorted && decide (stats.count + 1 > 1) && decide (val < (statsStep stats val).max)) = true
    · rw [if_pos test] at up
      cases up
    · rw [if_neg test] at up
      rw [List.pairwise_append]
      refine ⟨inv.sorted up, List.pairwise_singleton _ _, fun a member b same => ?_⟩
      rw [List.mem_singleton] at same
      subst same
      -- some value was seen, so the flag's test ran: the value is not below the running max
      have seenSome : stats.count + 1 > 1 := by
        rw [inv.count_eq]
        exact Nat.lt_add_of_pos_left (List.length_pos_of_mem member)
      simp only [up, seenSome, decide_true, Bool.true_and, statsStep_max] at test
      split at test
      · exact UInt64.le_of_lt (UInt64.lt_of_le_of_lt (inv.high a member) ‹_›)
      · exact UInt64.le_trans (inv.high a member) (UInt64.not_lt.mp (by simpa using test))

theorem StatsInv.foldl {stats : SegmentStats} {seen : List UInt64} (inv : StatsInv stats seen) :
    ∀ values : List UInt64, StatsInv (values.foldl statsStep stats) (seen ++ values)
  | [] => by simpa using inv
  | val :: rest => by
    rw [List.foldl_cons, show seen ++ val :: rest = (seen ++ [val]) ++ rest by simp]
    exact (inv.step val).foldl rest

/-- On a list with least value `lo` and greatest `hi`, `compute_stats` finds
them and the count, with an order flag that is up only if the list never goes
down. -/
theorem computeStats_of_bounds {values : List UInt64} {lo hi : UInt64} (bounds : EncodedU64Array.Bounds values lo hi) :
    ∃ sorted, computeStats values = ⟨lo, hi, values.length, sorted⟩ ∧ (sorted = true → values.Pairwise (· ≤ ·)) := by
  have inv := statsInv_start.foldl values
  rw [List.nil_append] at inv
  have nonempty := bounds.ne_nil
  have leastFound : values.min? = some (values.foldl statsStep ⟨0xFFFFFFFFFFFFFFFF, 0, 0, true⟩).min :=
    List.min?_eq_some_iff.mpr ⟨inv.min_mem.resolve_right fun ⟨empty, _⟩ => nonempty empty, inv.low⟩
  have greatestFound : values.max? = some (values.foldl statsStep ⟨0xFFFFFFFFFFFFFFFF, 0, 0, true⟩).max :=
    List.max?_eq_some_iff.mpr ⟨inv.max_mem.resolve_right fun ⟨empty, _⟩ => nonempty empty, inv.high⟩
  have counted : (values.foldl statsStep ⟨0xFFFFFFFFFFFFFFFF, 0, 0, true⟩).count ≠ 0 := by
    rw [inv.count_eq]
    exact List.length_pos_iff.mpr nonempty |>.ne'
  refine ⟨(values.foldl statsStep ⟨0xFFFFFFFFFFFFFFFF, 0, 0, true⟩).sorted, ?_, inv.sorted⟩
  rw [computeStats]
  simp only [counted, if_false]
  rw [bounds.min_eq, Option.some.injEq] at leastFound
  rw [bounds.max_eq, Option.some.injEq] at greatestFound
  rw [leastFound, greatestFound, ← inv.count_eq]

/-- `holes_in_slice`: the values of the range that the sorted `existing` does
not hold, found by walking both with a peek at the next existing value. -/
def holesInSlice : List UInt64 → List UInt64 → List UInt64
  | [], _ => []
  | val :: rest, [] => val :: holesInSlice rest []
  | val :: rest, next :: later =>
    if next = val then holesInSlice rest later else val :: holesInSlice rest (next :: later)

/-- Walking a run without repeats against a sublist of it yields the values of
the run that the sublist misses. -/
theorem holesInSlice_eq_filter : ∀ (run existing : List UInt64), run.Nodup → existing.Sublist run →
    holesInSlice run existing = run.filter (· ∉ existing)
  | [], _, _, _ => rfl
  | val :: rest, [], distinct, _ => by
    simp [holesInSlice, holesInSlice_eq_filter rest [] (List.nodup_cons.mp distinct).2 (List.nil_sublist _)]
  | val :: rest, next :: later, distinct, sub => by
    obtain ⟨fresh, restDistinct⟩ := List.nodup_cons.mp distinct
    unfold holesInSlice
    split
    · -- the next existing value is this one: it is no hole, and it is not met again
      rename_i same
      subst same
      rw [holesInSlice_eq_filter rest later restDistinct (List.cons_sublist_cons.mp sub),
        List.filter_cons_of_neg (by simp)]
      apply List.filter_congr
      intro a member
      have other : a ≠ next := fun same => fresh (same ▸ member)
      simp [other]
    · -- a value the existing ones skip is a hole
      rename_i differ
      have restSub : (next :: later).Sublist rest := by
        rcases List.sublist_cons_iff.mp sub with inRest | ⟨r, same, _⟩
        · exact inRest
        · cases same
          exact absurd rfl differ
      rw [holesInSlice_eq_filter rest (next :: later) restDistinct restSub, List.filter_cons_of_pos]
      simpa using fun member => fresh (restSub.subset member)

/-- `sorted_sequence_sizes`: the byte costs of a range with holes, a range with
a bitmap and a sorted array, the three entries of the array it returns. -/
def sortedSequenceSizes (stats : SegmentStats) : Nat × Nat × Nat :=
  let nHoles := stats.nHoles
  let totalSlots := stats.max.toNat - stats.min.toNat + 1
  let rangeWithHoles := saturateU128 (24 + saturateU128 (4 * nHoles))
  let rangeWithBitmap := saturateU128 (24 + (totalSlots + 7) / 8)
  let sortedArray := saturateU128 (24 + saturateU128 (2 * stats.count))
  (saturateUsize rangeWithHoles, saturateUsize rangeWithBitmap, saturateUsize sortedArray)

/-- The bitmap of a range with its holes cleared; `none` where a clear panics. -/
def bitmapWithout (stats : SegmentStats) (holes : List UInt64) : Option Bitmap :=
  holes.foldlM (fun bitmap hole => bitmap.clear (hole - stats.min).toNat)
    (Bitmap.newFull ((stats.max - stats.min).toNat + 1))

def fromStatsAndSequence (stats : SegmentStats) (sequence : List UInt64) : Option U64Segment :=
  if stats.sorted then
    let nHoles := stats.nHoles
    let exclusiveEnd := checkedAdd stats.max 1
    if stats.count = 0 then some (range ⟨0, 0⟩)
    else if nHoles = 0 ∧ exclusiveEnd.isSome then some (range ⟨stats.min, stats.max + 1⟩)
    else
      match exclusiveEnd with
      | some stop =>
        let (holesSize, bitmapSize, arraySize) := sortedSequenceSizes stats
        let minSize := Nat.min holesSize (Nat.min bitmapSize arraySize)
        let holes := holesInSlice (inclusiveValues stats.min stats.max) sequence
        if minSize = holesSize then
          some (rangeWithHoles ⟨stats.min, stop⟩ (EncodedU64Array.fromVec (holes.mergeSort fun a b => decide (a ≤ b))))
        else if minSize = bitmapSize then
          (bitmapWithout stats holes).map fun bitmap => rangeWithBitmap ⟨stats.min, stop⟩ bitmap
        else some (sortedArray (EncodedU64Array.fromVec sequence))
      | none => some (sortedArray (EncodedU64Array.fromVec sequence))
  else some (array (EncodedU64Array.fromVec sequence))

/-- The bitmap of a range with a bitmap has the length the reader rebuilds,
`(end - start) as usize`, which a debug build computes without wrapping. -/
def BitmapLenMatches : U64Segment → Prop
  | rangeWithBitmap span bitmap => debugSub span.stop.toNat span.start.toNat = some bitmap.len
  | _ => True

instance : DecidablePred BitmapLenMatches
  | rangeWithBitmap span bitmap =>
    inferInstanceAs (Decidable (debugSub span.stop.toNat span.start.toNat = some bitmap.len))
  | range _ => isTrue trivial
  | rangeWithHoles _ _ => isTrue trivial
  | sortedArray _ => isTrue trivial
  | array _ => isTrue trivial

def fromSlice (values : List UInt64) : Option U64Segment :=
  fromStatsAndSequence (computeStats values) values

/-- `iter`: the values the segment holds, in order. -/
def iter : U64Segment → Option (List UInt64)
  | range span => some span.values
  | rangeWithHoles span holes => some (span.values.filter fun val => !(holes.binarySearch val).isOk)
  | rangeWithBitmap span bitmap => span.values.filterM fun val => bitmap.get (val - span.start).toNat
  | sortedArray encoded => some encoded.iter
  | array encoded => some encoded.iter

def len : U64Segment → Nat
  | range span => (span.stop - span.start).toNat
  | rangeWithHoles span holes => usizeSub (span.stop - span.start).toNat holes.iter.length
  | rangeWithBitmap span bitmap => usizeSub (span.stop - span.start).toNat bitmap.countZeros
  | sortedArray encoded => encoded.len
  | array encoded => encoded.len

/-- `range`: the least and greatest value, as `start..=end`. -/
def valueRange : U64Segment → Option (Option (UInt64 × UInt64))
  | range span => if span.isEmpty then some none else some (some (span.start, span.stop - 1))
  | rangeWithHoles span _ => some (some (span.start, span.stop - 1))
  | rangeWithBitmap span _ => some (some (span.start, span.stop - 1))
  | sortedArray encoded => do
    let lo ← encoded.first
    let hi ← encoded.last
    pure (some (lo, hi))
  | array encoded => do
    let lo ← encoded.min
    let hi ← encoded.max
    pure (some (lo, hi))

def position : U64Segment → UInt64 → Option (Option Nat)
  | range span, val => some (if span.contains val then some (val - span.start).toNat else none)
  | rangeWithHoles span holes, val =>
    if !span.contains val then some none
    else
      match holes.binarySearch val with
      | .ok _ => some none
      | .error numHolesBefore =>
        let offset := (val - span.start).toNat
        some (some (usizeSub offset numHolesBefore))
  | rangeWithBitmap span bitmap, val =>
    if span.contains val then do
      let present ← bitmap.get (val - span.start).toNat
      if present then
        let offset := (val - span.start).toNat
        let numZeros ← (bitmap.slice 0 offset).countZeros
        pure (some (usizeSub offset numZeros))
      else pure none
    else some none
  | sortedArray encoded, val =>
    some (match encoded.binarySearch val with
      | .ok idx => some idx
      | .error _ => none)
  | array encoded, val => some (encoded.iter.findIdx? (· == val))

/-- The `while lo < hi` loop of `get` on a range with holes: the least `k`
with `holes[k] - k > target`, `holes[k] - k` saturating. -/
def holesSearchLoop (holes : EncodedU64Array) (target : UInt64) : Nat → Nat → Nat → Option Nat
  | 0, lo, _ => some lo
  | fuel + 1, lo, hi =>
    if lo < hi then
      let mid := (lo + hi) / 2
      match holes.get mid with
      | none => none
      | some h =>
        if saturatingSub h (UInt64.ofNat mid) > target then holesSearchLoop holes target fuel lo mid
        else holesSearchLoop holes target fuel (mid + 1) hi
    else some lo

/-- The loop is `partition_point` over the holes, with a probe that holds while
`holes[k] - k` stays at or below the target. -/
theorem holesSearchLoop_eq (holes : EncodedU64Array) (target : UInt64) :
    ∀ (fuel lo hi : Nat), lo ≤ hi → hi ≤ holes.len →
      holesSearchLoop holes target fuel lo hi =
        some (partitionPointLoop (fun k => (holes.get k).all fun h => !(saturatingSub h (UInt64.ofNat k) > target))
          fuel lo hi)
  | 0, _, _, _, _ => rfl
  | fuel + 1, lo, hi, ordered, inside => by
    unfold holesSearchLoop partitionPointLoop
    dsimp only
    split
    · rename_i window
      have mid : (lo + hi) / 2 = lo + (hi - lo) / 2 := by omega
      obtain ⟨h, found⟩ : ∃ h, holes.get ((lo + hi) / 2) = some h := by
        rw [EncodedU64Array.get_eq]
        exact ⟨_, List.getElem?_eq_getElem (by rw [EncodedU64Array.length_iter]; omega)⟩
      simp only [found, Option.all_some, ← mid]
      split
      · rename_i above
        simp only [above, decide_true, Bool.not_true, Bool.false_eq_true, if_false]
        exact holesSearchLoop_eq holes target fuel lo _ (by omega) (by omega)
      · rename_i notAbove
        simp only [notAbove, decide_false, Bool.not_false, if_true]
        exact holesSearchLoop_eq holes target fuel _ hi (by omega) inside
    · rfl

/-- The byte loop of `get` on a range with a bitmap: skip whole bytes by their
`count_ones`, then clear the lowest set bit of the byte that holds the wanted
one as often as there are set bits before it, and take the lowest left. -/
def selectLoop (start : UInt64) : List UInt8 → Nat → Nat → Option UInt64
  | [], _, _ => none
  | byte :: rest, byteIdx, remaining =>
    let ones := Library.countOnes byte
    if remaining < ones then
      let b := (List.range remaining).foldl (fun b _ => b &&& (b - 1)) byte
      let bit := trailingZeros b
      some (start + UInt64.ofNat (byteIdx * 8 + bit))
    else selectLoop start rest (byteIdx + 1) (remaining - ones)

/-- The loop finds the position of the `remaining`-th set bit of the bytes
from `byteIdx` on. -/
theorem selectLoop_eq (start : UInt64) : ∀ (data : List UInt8) (byteIdx remaining : Nat),
    selectLoop start data byteIdx remaining =
      (nthTrue (data.flatMap byteBits) remaining).map fun j => start + UInt64.ofNat (byteIdx * 8 + j)
  | [], _, _ => rfl
  | byte :: rest, byteIdx, remaining => by
    unfold selectLoop
    rw [List.flatMap_cons]
    dsimp only
    split
    · -- the wanted bit is in this byte
      rename_i inByte
      have count : remaining < (byteBits byte).count true := countOnes_eq_count byte ▸ inByte
      rw [nthTrue_append_of_lt _ _ _ count, ← trailingZeros_clearLowest remaining byte inByte, Option.map_some]
    · -- skip the byte and its set bits
      rename_i past
      have count : (byteBits byte).count true ≤ remaining := by
        rw [← countOnes_eq_count]
        omega
      rw [selectLoop_eq start rest (byteIdx + 1), nthTrue_append_of_le _ _ _ count, Option.map_map,
        ← countOnes_eq_count, length_byteBits]
      congr 1
      funext j
      simp only [Function.comp_apply]
      congr 2
      omega

def get : U64Segment → Nat → Option (Option UInt64)
  | range span, i =>
    some (match checkedAdd span.start (UInt64.ofNat i) with
      | some val => if val < span.stop then some val else none
      | none => none)
  | rangeWithHoles span holes, i =>
    let len := usizeSub (span.stop - span.start).toNat holes.len
    if i ≥ len then some none
    else
      let target := span.start + UInt64.ofNat i
      (holesSearchLoop holes target holes.len 0 holes.len).map fun lo =>
        some (span.start + UInt64.ofNat i + UInt64.ofNat lo)
  | rangeWithBitmap span bitmap, i => some (selectLoop span.start bitmap.data 0 i)
  | sortedArray encoded, i => some (encoded.get i)
  | array encoded, i => some (encoded.get i)

def contains : U64Segment → UInt64 → Option Bool
  | range span, val => some (span.contains val)
  | rangeWithHoles span holes, val =>
    some (if !span.contains val then false else !(holes.iter.any (· == val)))
  | rangeWithBitmap span bitmap, val =>
    if !span.contains val then some false else bitmap.get (val - span.start).toNat
  | sortedArray encoded, val => some (encoded.binarySearch val).isOk
  | array encoded, val => some (encoded.iter.any (· == val))

end U64Segment

end Lance.RowIds
