import Mathlib.Algebra.Order.BigOperators.Group.List
import Mathlib.Algebra.Order.Group.Nat
import Mathlib.Algebra.Group.Action.Defs
import Lance.Library.Runs
import Lance.Library.WordArith
import Lance.Select.InsertRange

/-! `bitmap_to_ranges` and `ranges_to_bitmap` of `mask.rs`: a bitmap of `u32`
values as the half-open `u64` ranges of its runs, and back. The way back casts
each end to `u32`. Sorted input is read value by value when the first ten
ranges are six values long or less on average, and range by range otherwise;
unsorted input is always read range by range. -/

namespace Lance.Select

open Lance.Library

/-- `RoaringBitmap::from_sorted_iter`: the values, which must come in strictly
increasing order; it returns an error otherwise. -/
def RoaringBitmap.fromSortedIter (values : List UInt32) : Option RoaringBitmap :=
  if values.Pairwise (· < ·) then some values.toFinset else none

/-- `RoaringBitmap::insert_range(start..stop)`: nothing for an empty range,
`start..=stop - 1` otherwise. -/
def RoaringBitmap.insertRangeExclusive (set : RoaringBitmap) (start stop : UInt32) : RoaringBitmap :=
  if start < stop then (set.insertRange start (stop - 1)).1 else set

def u32Values (start stop : UInt32) : List UInt32 :=
  (List.range' start.toNat (stop.toNat - start.toNat)).map UInt32.ofNat

/-- `bitmap_to_ranges`: each run `start..=end` as `start..end + 1` in `u64`. -/
def bitmapToRanges (bitmap : RoaringBitmap) : List (UInt64 × UInt64) :=
  bitmap.runs.map fun run => (run.1.toUInt64, run.2.toUInt64 + 1)

/-- The loop that ends `ranges_to_bitmap`: each range, its ends cast to `u32`,
inserted into a new bitmap. -/
def insertRanges (ranges : List (UInt64 × UInt64)) : RoaringBitmap :=
  ranges.foldl (fun bm range => bm.insertRangeExclusive range.1.toUInt32 range.2.toUInt32) ∅

/-- `ranges_to_bitmap`, with a debug build's `u64` arithmetic in the average
length of the sample; the `unwrap` of `from_sorted_iter` panics (none) on
values out of order. -/
def rangesToBitmap (ranges : List (UInt64 × UInt64)) (sorted : Bool) : Option RoaringBitmap :=
  if ranges.isEmpty then some ∅
  else if sorted then do
    let sampleSize := min ranges.length 10
    let lens ← (ranges.take sampleSize).mapM fun range => debugSub range.2.toNat range.1.toNat
    let total ← lens.foldlM (debugAdd 64) 0
    if total / sampleSize ≤ 6 then
      RoaringBitmap.fromSortedIter (ranges.flatMap fun range => u32Values range.1.toUInt32 range.2.toUInt32)
    else some (insertRanges ranges)
  else some (insertRanges ranges)

/-! ### What the ranges stand for -/

def inRange (range : UInt64 × UInt64) (value : Nat) : Prop := range.1.toNat ≤ value ∧ value < range.2.toNat

instance (range : UInt64 × UInt64) (value : Nat) : Decidable (inRange range value) :=
  inferInstanceAs (Decidable (_ ∧ _))

def rangesUnion (ranges : List (UInt64 × UInt64)) : RoaringBitmap :=
  Finset.univ.filter fun value => ∃ range ∈ ranges, inRange range value.toNat

@[simp] theorem mem_rangesUnion {ranges : List (UInt64 × UInt64)} {value : UInt32} :
    value ∈ rangesUnion ranges ↔ ∃ range ∈ ranges, inRange range value.toNat := by
  simp [rangesUnion]

/-! ### The two ways of filling the bitmap -/

theorem toNat_toUInt32_of_lt {x : UInt64} (small : x.toNat < 2 ^ 32) : x.toUInt32.toNat = x.toNat := by
  rw [UInt64.toNat_toUInt32, Nat.mod_eq_of_lt small]

def Fits (range : UInt64 × UInt64) : Prop := range.1 ≤ range.2 ∧ range.2.toNat < 2 ^ 32

instance (range : UInt64 × UInt64) : Decidable (Fits range) := inferInstanceAs (Decidable (_ ∧ _))

theorem Fits.start_lt {range : UInt64 × UInt64} (fits : Fits range) : range.1.toNat < 2 ^ 32 := by
  have := UInt64.le_iff_toNat_le.mp fits.1
  have := fits.2
  omega

theorem Fits.inRange_iff {range : UInt64 × UInt64} (fits : Fits range) (value : UInt32) :
    (range.1.toUInt32.toNat ≤ value.toNat ∧ value.toNat < range.2.toUInt32.toNat) ↔ inRange range value.toNat := by
  rw [toNat_toUInt32_of_lt fits.start_lt, toNat_toUInt32_of_lt fits.2, inRange]

theorem mem_u32Values {start stop value : UInt32} :
    value ∈ u32Values start stop ↔ start.toNat ≤ value.toNat ∧ value.toNat < stop.toNat := by
  simp only [u32Values, List.mem_map, List.mem_range'_1]
  constructor
  · rintro ⟨n, ⟨low, high⟩, rfl⟩
    have := stop.toNat_lt
    rw [UInt32.toNat_ofNat_of_lt' (show n < 2 ^ 32 by omega)]
    omega
  · rintro ⟨low, high⟩
    exact ⟨value.toNat, ⟨low, by omega⟩, UInt32.ofNat_toNat⟩

theorem pairwise_u32Values (start stop : UInt32) : (u32Values start stop).Pairwise (· < ·) := by
  rw [u32Values, List.pairwise_map]
  refine (List.pairwise_lt_range' 1).imp_of_mem fun {a b} aMem bMem lt => ?_
  have := stop.toNat_lt
  rw [List.mem_range'_1] at aMem bMem
  rw [UInt32.lt_iff_toNat_lt, UInt32.toNat_ofNat_of_lt' (show a < 2 ^ 32 by omega),
    UInt32.toNat_ofNat_of_lt' (show b < 2 ^ 32 by omega)]
  exact lt

theorem mem_insertRangeExclusive {set : RoaringBitmap} {start stop value : UInt32} :
    value ∈ set.insertRangeExclusive start stop ↔
      value ∈ set ∨ (start.toNat ≤ value.toNat ∧ value.toNat < stop.toNat) := by
  unfold RoaringBitmap.insertRangeExclusive
  split_ifs with nonempty
  · have below := UInt32.lt_iff_toNat_lt.mp nonempty
    have positive : (1 : UInt32) ≤ stop := UInt32.le_iff_toNat_le.mpr (by change 1 ≤ _; omega)
    rw [RowAddrTreeMap.mem_insertRange, UInt32.le_iff_toNat_le, UInt32.le_iff_toNat_le,
      UInt32.toNat_sub_of_le _ _ positive, show (1 : UInt32).toNat = 1 from rfl]
    have last : value.toNat ≤ stop.toNat - 1 ↔ value.toNat < stop.toNat := by omega
    rw [last]
  · have := UInt32.lt_iff_toNat_lt.not.mp nonempty
    constructor
    · exact Or.inl
    · rintro (mem | ⟨low, high⟩)
      · exact mem
      · omega

theorem mem_foldl_insertRangeExclusive {value : UInt32} : ∀ (ranges : List (UInt64 × UInt64)) (set : RoaringBitmap),
    value ∈ ranges.foldl (fun bm range => bm.insertRangeExclusive range.1.toUInt32 range.2.toUInt32) set ↔
      value ∈ set ∨ ∃ range ∈ ranges, range.1.toUInt32.toNat ≤ value.toNat ∧ value.toNat < range.2.toUInt32.toNat
  | [], set => by simp
  | range :: rest, set => by
    rw [List.foldl_cons, mem_foldl_insertRangeExclusive rest, mem_insertRangeExclusive]
    simp only [List.mem_cons, or_and_right, exists_or, exists_eq_left, or_assoc]

theorem insertRanges_eq {ranges : List (UInt64 × UInt64)} (fits : ∀ range ∈ ranges, Fits range) :
    insertRanges ranges = rangesUnion ranges := by
  ext value
  rw [insertRanges, mem_foldl_insertRangeExclusive, mem_rangesUnion]
  simp only [Finset.notMem_empty, false_or]
  exact exists_congr fun range => and_congr_right fun mem => (fits range mem).inRange_iff value

theorem fromSortedIter_of_pairwise {values : List UInt32} (increasing : values.Pairwise (· < ·)) :
    RoaringBitmap.fromSortedIter values = some values.toFinset := if_pos increasing

section Sorted

variable {ranges : List (UInt64 × UInt64)} (fits : ∀ range ∈ ranges, Fits range)
  (sortedByStart : ranges.Pairwise fun range other => range.1 ≤ other.1)
  (disjoint : ranges.Pairwise fun range other => ∀ value, ¬ (inRange range value ∧ inRange other value))

include fits sortedByStart disjoint in
theorem pairwise_flatMap_u32Values :
    (ranges.flatMap fun range => u32Values range.1.toUInt32 range.2.toUInt32).Pairwise (· < ·) := by
  refine List.pairwise_flatMap.mpr ⟨fun range _ => pairwise_u32Values _ _, ?_⟩
  refine (List.pairwise_and_iff.mpr ⟨sortedByStart, disjoint⟩).imp_of_mem ?_
  intro range other rangeMem otherMem ⟨ordered, apart⟩ x xMem y yMem
  rw [mem_u32Values, (fits range rangeMem).inRange_iff] at xMem
  rw [mem_u32Values, (fits other otherMem).inRange_iff] at yMem
  have starts := UInt64.le_iff_toNat_le.mp ordered
  rw [UInt32.lt_iff_toNat_lt]
  -- a later value no greater than an earlier one would lie in both ranges
  by_contra notBelow
  unfold inRange at xMem yMem apart
  exact apart y.toNat ⟨⟨by omega, by omega⟩, yMem⟩

include fits in
theorem toFinset_flatMap_u32Values :
    (ranges.flatMap fun range => u32Values range.1.toUInt32 range.2.toUInt32).toFinset = rangesUnion ranges := by
  ext value
  rw [List.mem_toFinset, List.mem_flatMap, mem_rangesUnion]
  exact exists_congr fun range => and_congr_right fun mem => by rw [mem_u32Values, (fits range mem).inRange_iff]

end Sorted

theorem mapM_debugSub : ∀ {ranges : List (UInt64 × UInt64)}, (∀ range ∈ ranges, range.1 ≤ range.2) →
    ranges.mapM (fun range => debugSub range.2.toNat range.1.toNat) =
      some (ranges.map fun range => range.2.toNat - range.1.toNat)
  | [], _ => rfl
  | range :: rest, ordered => by
    have first := debugSub_of_le (UInt64.le_iff_toNat_le.mp (ordered range List.mem_cons_self))
    rw [List.mapM_cons, first, mapM_debugSub fun other mem => ordered other (List.mem_cons_of_mem _ mem)]
    rfl

theorem foldlM_debugAdd {w : Nat} : ∀ {lens : List Nat} {acc : Nat}, acc + lens.sum < 2 ^ w →
    lens.foldlM (debugAdd w) acc = some (acc + lens.sum)
  | [], acc, _ => by simp
  | len :: rest, acc, fits => by
    rw [List.sum_cons] at fits
    rw [List.foldlM_cons, debugAdd_of_lt (by omega), Option.bind_eq_bind, Option.bind_some,
      foldlM_debugAdd (by omega), List.sum_cons, Nat.add_assoc]

/-- Sorted or not, ranges that fit in `u32`, sorted by start and pairwise
disjoint make the bitmap of their union, whichever way the sample sends them. -/
theorem rangesToBitmap_eq_rangesUnion {ranges : List (UInt64 × UInt64)} (fits : ∀ range ∈ ranges, Fits range)
    (sortedByStart : ranges.Pairwise fun range other => range.1 ≤ other.1)
    (disjoint : ranges.Pairwise fun range other => ∀ value, ¬ (inRange range value ∧ inRange other value))
    (sorted : Bool) : rangesToBitmap ranges sorted = some (rangesUnion ranges) := by
  have inserted := insertRanges_eq fits
  unfold rangesToBitmap
  split_ifs with empty
  · rw [List.isEmpty_iff.mp empty, Option.some_inj]
    ext value
    simp
  · -- at most ten lengths below `2 ^ 32` each: neither the lengths nor their sum panic
    dsimp only
    set sample := ranges.take (min ranges.length 10)
    have taken : ∀ range ∈ sample, Fits range := fun range mem => fits range (List.mem_of_mem_take mem)
    have bounded : ∀ len ∈ sample.map fun range => range.2.toNat - range.1.toNat, len ≤ 2 ^ 32 := by
      intro len mem
      obtain ⟨range, inSample, rfl⟩ := List.mem_map.mp mem
      have := (taken range inSample).2
      omega
    have few : (sample.map fun range => range.2.toNat - range.1.toNat).length ≤ 10 := by
      rw [List.length_map, List.length_take]
      omega
    have total := List.sum_le_card_nsmul _ _ bounded
    rw [smul_eq_mul] at total
    rw [mapM_debugSub fun range mem => (taken range mem).1, Option.bind_eq_bind, Option.bind_some,
      foldlM_debugAdd (show 0 + _ < 2 ^ 64 by omega), Option.bind_eq_bind, Option.bind_some]
    split_ifs
    · rw [fromSortedIter_of_pairwise (pairwise_flatMap_u32Values fits sortedByStart disjoint),
        toFinset_flatMap_u32Values fits]
    · rw [inserted]
  · rw [inserted]

/-! ### The ranges of a bitmap -/

theorem run_bounds {bitmap : RoaringBitmap} {run : ℕ × ℕ}
    (mem : run ∈ groupRuns ((bitmap.image UInt32.toNat).sort (· ≤ ·))) :
    run.1 < run.2 ∧ ∃ last ∈ bitmap, last.toNat = run.2 - 1 := by
  have nonempty := lt_of_mem_groupRuns run mem
  have lastMem := mem_groupRuns.mp ⟨run, mem, show run.1 ≤ run.2 - 1 by omega, show run.2 - 1 < run.2 by omega⟩
  exact ⟨nonempty, Finset.mem_image.mp ((Finset.mem_sort _).mp lastMem)⟩

theorem bitmapToRanges_eq (bitmap : RoaringBitmap) :
    bitmapToRanges bitmap = (groupRuns ((bitmap.image UInt32.toNat).sort (· ≤ ·))).map
      fun run => (UInt64.ofNat run.1, UInt64.ofNat run.2) := by
  rw [bitmapToRanges, RoaringBitmap.runs, List.map_map]
  refine List.map_congr_left fun run mem => ?_
  obtain ⟨nonempty, last, _, lastEq⟩ := run_bounds mem
  have small := last.toNat_lt
  have toUInt64 : ∀ n < 2 ^ 32, (UInt32.ofNat n).toUInt64.toNat = n := fun n below => by
    rw [UInt32.toNat_toUInt64, UInt32.toNat_ofNat_of_lt' below]
  refine Prod.ext (UInt64.toNat_inj.mp ?_) (UInt64.toNat_inj.mp ?_)
  · rw [Function.comp_apply, toUInt64 run.1 (by omega), UInt64.toNat_ofNat_of_lt' (show run.1 < 2 ^ 64 by omega)]
  · rw [Function.comp_apply, UInt64.toNat_add, toUInt64 (run.2 - 1) (by omega),
      UInt64.toNat_ofNat_of_lt' (show run.2 < 2 ^ 64 by omega), show (1 : UInt64).toNat = 1 from rfl]
    omega

theorem mem_bitmapToRanges {bitmap : RoaringBitmap} {range : UInt64 × UInt64} (mem : range ∈ bitmapToRanges bitmap) :
    range.1.toNat < range.2.toNat ∧ ∃ last ∈ bitmap, last.toNat = range.2.toNat - 1 := by
  rw [bitmapToRanges_eq] at mem
  obtain ⟨run, ofRun, rfl⟩ := List.mem_map.mp mem
  obtain ⟨nonempty, last, lastMem, lastEq⟩ := run_bounds ofRun
  have small := last.toNat_lt
  rw [UInt64.toNat_ofNat_of_lt' (show run.1 < 2 ^ 64 by omega), UInt64.toNat_ofNat_of_lt' (show run.2 < 2 ^ 64 by omega)]
  exact ⟨nonempty, last, lastMem, lastEq⟩

theorem fits_bitmapToRanges {bitmap : RoaringBitmap} (noMax : 0xFFFFFFFF ∉ bitmap) :
    ∀ range ∈ bitmapToRanges bitmap, Fits range := by
  intro range mem
  obtain ⟨nonempty, last, lastMem, lastEq⟩ := mem_bitmapToRanges mem
  have notMax : last.toNat ≠ 0xFFFFFFFF := fun same =>
    noMax (UInt32.toNat_inj.mp (show last.toNat = (0xFFFFFFFF : UInt32).toNat from same) ▸ lastMem)
  have small := last.toNat_lt
  exact ⟨UInt64.le_iff_toNat_le.mpr (by omega), by omega⟩

theorem pairwise_bitmapToRanges (bitmap : RoaringBitmap) :
    (bitmapToRanges bitmap).Pairwise fun range other => range.2.toNat < other.1.toNat := by
  have ordered := (pairwise_groupRuns (Finset.sortedLT_sort (bitmap.image UInt32.toNat)).pairwise).imp_of_mem
    (S := fun run next => (UInt64.ofNat run.2).toNat < (UInt64.ofNat next.1).toNat) fun {run next} runMem nextMem gap => by
      obtain ⟨_, last, _, lastEq⟩ := run_bounds runMem
      obtain ⟨_, next', _, nextEq⟩ := run_bounds nextMem
      have := last.toNat_lt
      have := next'.toNat_lt
      rw [UInt64.toNat_ofNat_of_lt' (show run.2 < 2 ^ 64 by omega),
        UInt64.toNat_ofNat_of_lt' (show next.1 < 2 ^ 64 by omega)]
      exact gap
  rw [bitmapToRanges_eq, List.pairwise_map]
  exact ordered

theorem rangesUnion_bitmapToRanges (bitmap : RoaringBitmap) : rangesUnion (bitmapToRanges bitmap) = bitmap := by
  ext value
  rw [mem_rangesUnion, bitmapToRanges_eq]
  have covered := @mem_groupRuns value.toNat ((bitmap.image UInt32.toNat).sort (· ≤ ·))
  rw [Finset.mem_sort, Finset.mem_image] at covered
  have found : (∃ last ∈ bitmap, last.toNat = value.toNat) ↔ value ∈ bitmap :=
    ⟨fun ⟨last, mem, same⟩ => UInt32.toNat_inj.mp same ▸ mem, fun mem => ⟨value, mem, rfl⟩⟩
  rw [← found, ← covered]
  simp only [List.mem_map, exists_exists_and_eq_and]
  refine exists_congr fun run => and_congr_right fun mem => ?_
  obtain ⟨nonempty, last, _, lastEq⟩ := run_bounds mem
  have := last.toNat_lt
  rw [inRange, UInt64.toNat_ofNat_of_lt' (show run.1 < 2 ^ 64 by omega),
    UInt64.toNat_ofNat_of_lt' (show run.2 < 2 ^ 64 by omega)]

/-- Without `u32::MAX`, a bitmap comes back from its ranges with either flag;
and ranges that fit in `u32`, sorted by start and pairwise disjoint, make the
bitmap of their union with either flag. -/
theorem rangesToBitmap_bitmapToRanges {bitmap : RoaringBitmap} (noMax : 0xFFFFFFFF ∉ bitmap)
    {ranges : List (UInt64 × UInt64)} (fits : ∀ range ∈ ranges, Fits range)
    (sortedByStart : ranges.Pairwise fun range other => range.1 ≤ other.1)
    (disjoint : ranges.Pairwise fun range other => ∀ value, ¬ (inRange range value ∧ inRange other value))
    (sorted : Bool) :
    rangesToBitmap (bitmapToRanges bitmap) sorted = some bitmap ∧
      rangesToBitmap ranges sorted = some (rangesUnion ranges) := by
  refine ⟨?_, rangesToBitmap_eq_rangesUnion fits sortedByStart disjoint sorted⟩
  -- a bitmap's ranges are separated by gaps, so they are sorted by start and disjoint
  have gaps := pairwise_bitmapToRanges bitmap
  have starts : (bitmapToRanges bitmap).Pairwise fun range other => range.1 ≤ other.1 :=
    gaps.imp_of_mem fun {range _} rangeMem _ gap => UInt64.le_iff_toNat_le.mpr (by
      have := (mem_bitmapToRanges rangeMem).1
      omega)
  have apart : (bitmapToRanges bitmap).Pairwise fun range other =>
      ∀ value, ¬ (inRange range value ∧ inRange other value) :=
    gaps.imp fun gap value ⟨⟨_, below⟩, ⟨above, _⟩⟩ => by omega
  rw [rangesToBitmap_eq_rangesUnion (fits_bitmapToRanges noMax) starts apart sorted, rangesUnion_bitmapToRanges]

/-- A bitmap that holds `u32::MAX`: its last range ends at `2 ^ 32`, which the
cast to `u32` turns into `0`, so the way back drops the range and its values. -/
theorem rangesToBitmap_loses_last_value :
    bitmapToRanges {0xFFFFFFFF} = [(0xFFFFFFFF, 0x100000000)] ∧
      rangesToBitmap [(0xFFFFFFFF, 0x100000000)] true = some ∅ ∧
      rangesToBitmap [(0xFFFFFFFF, 0x100000000)] false = some ∅ ∧
      rangesUnion [(0xFFFFFFFF, 0x100000000)] = {0xFFFFFFFF} := by
  have wrapped : (0x100000000 : UInt64).toUInt32 = 0 := rfl
  have sampled : rangesToBitmap [(0xFFFFFFFF, 0x100000000)] true =
      RoaringBitmap.fromSortedIter (u32Values 0xFFFFFFFF (0x100000000 : UInt64).toUInt32) := by
    simp [rangesToBitmap, debugSub, debugAdd]
  have inserted : rangesToBitmap [(0xFFFFFFFF, 0x100000000)] false = some ∅ := by
    simp [rangesToBitmap, insertRanges, RoaringBitmap.insertRangeExclusive]
  refine ⟨by rw [bitmapToRanges, RowAddrTreeMap.runs_singleton]; rfl, ?_, inserted, ?_⟩
  · rw [sampled, wrapped]
    rfl
  ext value
  have := value.toNat_lt
  rw [mem_rangesUnion, Finset.mem_singleton, ← UInt32.toNat_inj]
  simp only [List.mem_singleton, exists_eq_left, inRange]
  change 4294967295 ≤ value.toNat ∧ value.toNat < 4294967296 ↔ value.toNat = 4294967295
  omega

end Lance.Select
