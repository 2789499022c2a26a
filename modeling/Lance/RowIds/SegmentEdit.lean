import Lance.RowIds.FromSlice
import Lance.Library.Positions
import Lance.Library.ExceptRun

/-! Edits of one segment (`segment.rs`): `delete` of row ids given in their
order of appearance, and `mask` of positions given in increasing order. Both
filter the segment's values against a peeked iterator and rebuild a segment
from what is left, `delete` through the stats of the values left, `mask`
through stats it puts together itself. Both follow a debug build, as the
`RowIdSequence` edits that call them do: `delete` checks its `debug_assert!`, and
`mask`'s count panics below zero. `with_new_high`, which nothing in the source
calls, follows a release build. A panic is the outer `none`. -/

namespace Lance.RowIds

open Lance.Library

namespace EncodedU64Array

/-- The push of a new highest value in `with_new_high`, the same for a
`SortedArray` and an `Array`: the offset from the base is kept while it
fits 16 bits, 16-bit offsets are widened to 32 bits when it fits 32, and
otherwise the values are decoded and encoded afresh with the new one. -/
def pushHigh : EncodedU64Array → UInt64 → EncodedU64Array
  | u64 vec, val => u64 (vec ++ [val])
  | u16 base offsets, val =>
    let newArray := offsets.map (fun o => base + o.toUInt64) ++ [val]
    if base ≤ val then
      let offset := val - base
      if offset ≤ 0xFFFF then u16 base (offsets ++ [offset.toUInt16])
      else if offset ≤ 0xFFFFFFFF then u32 base (offsets.map (·.toUInt32) ++ [offset.toUInt32])
      else fromVec newArray
    else fromVec newArray
  | u32 base offsets, val =>
    if base ≤ val ∧ val - base ≤ 0xFFFFFFFF then u32 base (offsets ++ [(val - base).toUInt32])
    else fromVec (offsets.map (fun o => base + o.toUInt64) ++ [val])

end EncodedU64Array

namespace Bitmap

theorem len_set {bitmap next : Bitmap} {i : Nat} (setOk : bitmap.set i = some next) : next.len = bitmap.len := by
  unfold set at setOk
  split at setOk
  · cases setOk; rfl
  · cases setOk

theorem len_clear {bitmap next : Bitmap} {i : Nat} (clearOk : bitmap.clear i = some next) : next.len = bitmap.len := by
  unfold clear at clearOk
  split at clearOk
  · cases clearOk; rfl
  · cases clearOk

theorem len_fromBools {slice : List Bool} {bitmap : Bitmap} (made : fromBools slice = some bitmap) :
    bitmap.len = slice.length := by
  refine optionFoldlM_invariant (fun b : Bitmap => b.len = slice.length) _ ?_ (by simp [newEmpty]) made
  rintro ⟨bit, i⟩ - state next kept stepped
  dsimp only at stepped
  split at stepped
  · rw [len_set stepped, kept]
  · cases stepped; exact kept

theorem length_iter {bitmap : Bitmap} (sized : bitmap.len ≤ 8 * bitmap.data.length) : bitmap.iter.length = bitmap.len := by
  rw [iter_eq, List.length_take, length_bits]
  omega

end Bitmap

namespace U64Segment

/-! ### `delete` -/

/-- The filter of `delete`: a value is dropped when it is the next of `vals`,
which are assumed to come in their order of appearance. -/
def deleteFilter : List UInt64 → List UInt64 → List UInt64
  | _, [] => []
  | [], val :: rest => val :: deleteFilter [] rest
  | next :: later, val :: rest =>
    if next == val then deleteFilter later rest else val :: deleteFilter (next :: later) rest

/-- The test of `delete`'s `debug_assert!`: the segment's range, unwrapped,
holds the value. -/
def rangeContains (segment : U64Segment) (val : UInt64) : Option Bool := do
  let found ← segment.valueRange
  let range ← found
  pure (decide (range.1 ≤ val ∧ val ≤ range.2))

/-- `delete`: the values left, rebuilt from their stats, once the
`debug_assert!` has found each value to delete in the segment's range. -/
def delete (segment : U64Segment) (vals : List UInt64) : Option U64Segment := do
  if ← vals.allM segment.rangeContains then
    let kept := deleteFilter vals (← segment.iter)
    fromStatsAndSequence (computeStats kept) kept
  else none

theorem rangeContains_of_mem {segment : U64Segment} {vs : List UInt64} (represents : segment.Represents vs)
    {val : UInt64} (member : val ∈ vs) : segment.rangeContains val = some true := by
  obtain ⟨lo, least⟩ := Option.isSome_iff_exists.mp (List.isSome_min?_of_mem member)
  obtain ⟨hi, greatest⟩ := Option.isSome_iff_exists.mp (List.isSome_max?_of_mem member)
  obtain ⟨loMem, low⟩ := List.min?_eq_some_iff.mp least
  obtain ⟨hiMem, high⟩ := List.max?_eq_some_iff.mp greatest
  have bounds : EncodedU64Array.Bounds vs lo hi := EncodedU64Array.Bounds.of_mem loMem hiMem low high
  simp [rangeContains, represents.valueRange_bounds lo hi bounds, bounds.low val member, bounds.high val member]

/-- Values taken in their order of appearance among distinct values are each
dropped where they appear. -/
theorem deleteFilter_eq_filter : ∀ {vals values : List UInt64}, vals.Sublist values → values.Nodup →
    deleteFilter vals values = values.filter (· ∉ vals)
  | _, [], _, _ => rfl
  | [], val :: rest, _, distinct => by
    rw [deleteFilter, deleteFilter_eq_filter (List.nil_sublist rest) (List.nodup_cons.mp distinct).2]
    simp
  | next :: later, val :: rest, appear, distinct => by
    obtain ⟨fresh, restDistinct⟩ := List.nodup_cons.mp distinct
    rw [deleteFilter]
    split
    · -- the next value to delete is this one; it appears nowhere else
      rename_i same
      obtain rfl := beq_iff_eq.mp same
      rw [deleteFilter_eq_filter (List.cons_sublist_cons.mp appear) restDistinct, List.filter_cons_of_neg (by simp)]
      refine List.filter_congr fun x member => ?_
      have differ : x ≠ next := fun equal => fresh (equal ▸ member)
      simp [differ]
    · -- this value is kept: what is still to delete lies further on
      rename_i differ
      have later' : (next :: later).Sublist rest := by
        rcases List.sublist_cons_iff.mp appear with further | ⟨_, equal, _⟩
        · exact further
        · obtain ⟨rfl, rfl⟩ := List.cons.inj equal
          simp at differ
      have kept : val ∉ next :: later := fun member => fresh (later'.subset member)
      rw [deleteFilter_eq_filter later' restDistinct, List.filter_cons_of_pos (by simpa using kept)]

theorem delete_represents {segment : U64Segment} {vs vals : List UInt64} (represents : segment.Represents vs)
    (distinct : vs.Nodup) (appear : vals.Sublist vs) :
    ∃ deleted, segment.delete vals = some deleted ∧ deleted.Represents (vs.filter (· ∉ vals)) := by
  have kept := deleteFilter_eq_filter appear distinct
  have asserted : vals.allM segment.rangeContains = some true :=
    allM_eq_some_true fun val member => rangeContains_of_mem represents (appear.subset member)
  obtain ⟨deleted, built, result⟩ := represents_fromSlice (distinct.filter (· ∉ vals))
  refine ⟨deleted, ?_, result⟩
  rw [fromSlice] at built
  simp only [delete, asserted, represents.iter_eq, kept, Option.bind_eq_bind, Option.bind_some, if_true, built]

/-! ### `mask` -/

/-- The variants `mask` takes to hold their values in increasing order: all but `Array`. -/
def sortedVariant : U64Segment → Bool
  | range _ => true
  | rangeWithHoles _ _ => true
  | rangeWithBitmap _ _ => true
  | sortedArray _ => true
  | array _ => false

/-- The filter of `mask`: the value numbered `i` is dropped when `i`, cast
to `u32`, is the next of the positions, which are assumed to increase. -/
def maskFilter : List UInt32 → Nat → List UInt64 → List UInt64
  | _, _, [] => []
  | [], i, val :: rest => val :: maskFilter [] (i + 1) rest
  | next :: later, i, val :: rest =>
    if next == UInt32.ofNat i then maskFilter later (i + 1) rest else val :: maskFilter (next :: later) (i + 1) rest

/-- `mask`: the values left, rebuilt from stats put together by hand. The
minimum and maximum are read at the first and the last index not masked, each
found by zipping the indices with the positions repeated, forwards and
backwards. -/
def mask (segment : U64Segment) (positions : List UInt32) : Option U64Segment :=
  if positions.isEmpty then some segment
  else if positions.length = segment.len then some (range ⟨0, 0⟩)
  else do
    let count ← debugSub segment.len positions.length
    let sorted := segment.sortedVariant
    let firstUnmasked ← (List.range segment.len).find? fun i =>
      positions.getD (i % positions.length) 0 != UInt32.ofNat i
    let min ← (segment.get firstUnmasked).join
    let lastUnmasked ← (((List.range segment.len).map fun j =>
        (segment.len - 1 - j, positions.reverse.getD (j % positions.length) 0)).find? fun pair =>
          pair.2 != UInt32.ofNat pair.1).map Prod.fst
    let max ← (segment.get lastUnmasked).join
    let sequence := maskFilter positions 0 (← segment.iter)
    fromStatsAndSequence ⟨min, max, count, sorted⟩ sequence

@[simp] theorem mask_nil (segment : U64Segment) : segment.mask [] = some segment := rfl

/-- Against increasing positions, none before the first value, the filter of
`mask` keeps the values whose numbers are not among the positions. -/
theorem maskFilter_eq_keepAt : ∀ {positions : List UInt32} {i : Nat} {values : List UInt64},
    (positions.map UInt32.toNat).Pairwise (· < ·) → (∀ p ∈ positions, i ≤ p.toNat) → i + values.length ≤ 2 ^ 32 →
    maskFilter positions i values = keepAt (positions.map UInt32.toNat) i values
  | _, _, [], _, _, _ => rfl
  | [], i, val :: rest, _, _, fits => by
    rw [maskFilter, maskFilter_eq_keepAt (by simp) (by simp) (by simp at fits; omega)]
    simp
  | next :: later, i, val :: rest, increasing, above, fits => by
    rw [List.map_cons, List.pairwise_cons] at increasing
    have small : i < 2 ^ 32 := by simp at fits; omega
    have laterAbove : ∀ p ∈ later, next.toNat < p.toNat := fun p member =>
      increasing.1 p.toNat (List.mem_map_of_mem member)
    have nextAbove := above next List.mem_cons_self
    rw [maskFilter, List.map_cons, keepAt_cons, beq_ofNat_eq small]
    by_cases here : next.toNat = i
    · -- the value numbered `i` is masked; the later positions lie past it
      rw [if_pos (decide_eq_true here), if_pos (List.mem_cons.mpr (Or.inl here.symm)), List.nil_append,
        maskFilter_eq_keepAt increasing.2 (fun p member => by have := laterAbove p member; omega)
          (by simp at fits; omega)]
      refine keepAt_congr fun j _ => ?_
      rw [List.mem_cons, or_iff_right (by omega)]
    · have beyond : i ∉ next.toNat :: later.map UInt32.toNat := by
        simp only [List.mem_cons, List.mem_map, not_or, not_exists, not_and]
        exact ⟨Ne.symm here, fun p member same => by have := laterAbove p member; omega⟩
      rw [if_neg (by simpa using here), if_neg beyond, maskFilter_eq_keepAt (List.map_cons ▸ List.pairwise_cons.mpr increasing)
        (fun p member => by
          rcases List.mem_cons.mp member with rfl | later'
          · omega
          · have := laterAbove p later'; omega)
        (by simp at fits; omega)]
      rfl

/-- A strictly increasing list, with the values at some positions dropped, lies
between the first value and the last value kept. -/
theorem bounds_keepAt {vs : List UInt64} (sorted : vs.Pairwise (· < ·)) {dropped : List Nat} {first last : Nat}
    (firstInside : first < vs.length) (lastInside : last < vs.length) (firstKept : first ∉ dropped)
    (lastKept : last ∉ dropped) (beforeFirst : ∀ j < first, j ∈ dropped)
    (afterLast : ∀ i, last < i → i < vs.length → i ∈ dropped) :
    EncodedU64Array.Bounds (keepAt dropped 0 vs) vs[first] vs[last] := by
  have ordered : ∀ i j (iInside : i < vs.length) (jInside : j < vs.length), i ≤ j → vs[i] ≤ vs[j] :=
    fun i j iInside jInside le => by
      rcases Nat.lt_or_eq_of_le le with lt | rfl
      · exact UInt64.le_of_lt (List.pairwise_iff_getElem.mp sorted i j iInside jInside lt)
      · exact UInt64.le_refl _
  refine EncodedU64Array.Bounds.of_mem (mem_keepAt.mpr ⟨first, firstInside, by simpa using firstKept, rfl⟩)
    (mem_keepAt.mpr ⟨last, lastInside, by simpa using lastKept, rfl⟩) ?_ ?_
  · intro v member
    obtain ⟨i, inside, kept, rfl⟩ := mem_keepAt.mp member
    refine ordered first i firstInside inside (Nat.le_of_not_lt fun before => kept ?_)
    simpa using beforeFirst i before
  · intro v member
    obtain ⟨i, inside, kept, rfl⟩ := mem_keepAt.mp member
    refine ordered i last inside lastInside (Nat.le_of_not_lt fun after => kept ?_)
    simpa using afterLast i after inside

section Unmasked

variable {positions : List UInt32} {n : Nat}

theorem firstUnmasked_eq (increasing : (positions.map UInt32.toNat).Pairwise (· < ·)) (nonempty : positions ≠ [])
    (fewer : positions.length < n) (short : n ≤ 2 ^ 32) :
    ∃ first, (List.range n).find? (fun i => positions.getD (i % positions.length) 0 != UInt32.ofNat i) = some first ∧
      first < n ∧ first ∉ positions.map UInt32.toNat ∧ ∀ j < first, j ∈ positions.map UInt32.toNat := by
  obtain ⟨first, found, facts⟩ :=
    find?_range_cycle (n := n) increasing (by simpa using nonempty) (by simpa using fewer)
  refine ⟨first, ?_, facts⟩
  rw [← found, List.length_map]
  exact List.find?_congr fun i member => getD_bne_ofNat positions _ (by have := List.mem_range.mp member; omega)

theorem lastUnmasked_eq (increasing : (positions.map UInt32.toNat).Pairwise (· < ·))
    (inside : ∀ p ∈ positions, p.toNat < n) (nonempty : positions ≠ []) (fewer : positions.length < n)
    (short : n ≤ 2 ^ 32) :
    ∃ last, (((List.range n).map fun j => (n - 1 - j, positions.reverse.getD (j % positions.length) 0)).find?
        fun pair => pair.2 != UInt32.ofNat pair.1).map Prod.fst = some last ∧
      last < n ∧ last ∉ positions.map UInt32.toNat ∧ ∀ i, last < i → i < n → i ∈ positions.map UInt32.toNat := by
  obtain ⟨back, found, small, lastKept, afterLast⟩ :=
    find?_range_cycle_reverse increasing (by simpa using inside) (by simpa using nonempty) (by simpa using fewer)
  have scan : (List.range n).find? (fun j => positions.reverse.getD (j % positions.length) 0 !=
      UInt32.ofNat (n - 1 - j)) = some back := by
    rw [← found, List.length_map, ← List.map_reverse]
    exact List.find?_congr fun j _ => getD_bne_ofNat positions.reverse _ (by omega)
  refine ⟨n - 1 - back, ?_, by omega, lastKept, afterLast⟩
  rw [List.find?_map]
  simp only [Function.comp_def, scan, Option.map_some]

end Unmasked

/-- `mask` of increasing positions, each inside a segment of distinct values
whose variant is sorted only when its values are, builds a segment that holds
the values at the other positions. -/
theorem mask_represents {segment : U64Segment} {vs : List UInt64} (represents : segment.Represents vs)
    (distinct : vs.Nodup) (ordered : segment.sortedVariant = true → vs.Pairwise (· < ·)) (short : vs.length ≤ 2 ^ 32)
    {positions : List UInt32} (increasing : positions.Pairwise (· < ·))
    (inside : ∀ p ∈ positions, p.toNat < vs.length) :
    ∃ masked, segment.mask positions = some masked ∧ masked.Represents (keepAt (positions.map UInt32.toNat) 0 vs) := by
  have numbers : (positions.map UInt32.toNat).Pairwise (· < ·) :=
    List.pairwise_map.mpr (increasing.imp UInt32.lt_iff_toNat_lt.mp)
  have counted : (keepAt (positions.map UInt32.toNat) 0 vs).length + (positions.map UInt32.toNat).length =
      vs.length :=
    length_keepAt numbers.nodup (by simpa using inside)
  rw [List.length_map] at counted
  have filtered : maskFilter positions 0 vs = keepAt (positions.map UInt32.toNat) 0 vs :=
    maskFilter_eq_keepAt numbers (fun _ _ => Nat.zero_le _) (by simpa using short)
  unfold mask
  rw [represents.len_eq]
  split
  · -- nothing to mask
    rename_i empty
    rw [List.isEmpty_iff.mp empty]
    exact ⟨segment, rfl, by simpa using represents⟩
  split
  · -- every value is masked
    rename_i all
    have noneLeft : keepAt (positions.map UInt32.toNat) 0 vs = [] := List.eq_nil_of_length_eq_zero (by omega)
    exact ⟨range ⟨0, 0⟩, rfl, noneLeft ▸ represents_range ⟨0, 0⟩ (UInt64.le_refl _)⟩
  rename_i nonempty some_left
  have positionsNonempty : positions ≠ [] := fun empty => nonempty (by simp [empty])
  have fewer : positions.length < vs.length := by omega
  obtain ⟨first, foundFirst, firstSmall, firstKept, beforeFirst⟩ :=
    firstUnmasked_eq numbers positionsNonempty fewer short
  obtain ⟨last, foundLast, lastSmall, lastKept, afterLast⟩ :=
    lastUnmasked_eq numbers inside positionsNonempty fewer short
  have readFirst : (segment.get first).join = some vs[first] := by
    rw [represents.get_eq first (by omega), List.getElem?_eq_getElem firstSmall]
    rfl
  have readLast : (segment.get last).join = some vs[last] := by
    rw [represents.get_eq last (by omega), List.getElem?_eq_getElem lastSmall]
    rfl
  have count : debugSub vs.length positions.length = some (keepAt (positions.map UInt32.toNat) 0 vs).length := by
    rw [debugSub_of_le (by omega)]
    congr 1
    omega
  have keptNonempty : keepAt (positions.map UInt32.toNat) 0 vs ≠ [] := fun empty => by
    rw [empty, List.length_nil] at counted
    omega
  simp only [foundFirst, readFirst, foundLast, readLast, represents.iter_eq, filtered, count,
    Option.bind_eq_bind, Option.bind_some]
  -- the stats are those of the values kept; the order flag is the variant's
  cases sortedFlag : segment.sortedVariant with
  | false =>
    exact ⟨_, by simp [fromStatsAndSequence], represents_array (distinct.sublist (keepAt_sublist vs)) keptNonempty⟩
  | true =>
    have sorted := ordered sortedFlag
    exact fromStatsAndSequence_sorted (sorted.sublist (keepAt_sublist vs))
      (bounds_keepAt sorted firstSmall lastSmall firstKept lastKept beforeFirst afterLast)

/-! ### `with_new_high` -/

def newHighError (val top : UInt64) : String :=
  "New value " ++ toString val ++ " must be higher than current maximum " ++ toString top

/-- `with_new_high`: the segment with `val` after its values, refused unless
`val` is above the greatest of them. A range grows by one when `val` is its
end, and otherwise gains holes for the values between; a bitmap gains clear bits
for them; an array is pushed onto. The exclusive end `val + 1` wraps, as a
release build's does. -/
def withNewHigh (segment : U64Segment) (val : UInt64) : ExceptT String Option U64Segment := do
  match ← liftM segment.valueRange with
  | some (_, top) => if val ≤ top then throw (newHighError val top)
  | none => pure ()
  match segment with
  | range span =>
    -- an empty range becomes the range of the new value alone
    if span.start == span.stop then pure (range ⟨val, val + 1⟩)
    else if val == span.stop then pure (range ⟨span.start, val + 1⟩)
    else pure (rangeWithHoles ⟨span.start, val + 1⟩ (.u64 (⟨span.stop, val⟩ : U64Range).values))
  | rangeWithHoles span holes =>
    if val == span.stop then pure (rangeWithHoles ⟨span.start, val + 1⟩ holes)
    else pure (rangeWithHoles ⟨span.start, val + 1⟩ (.u64 (holes.iter ++ (⟨span.stop, val⟩ : U64Range).values)))
  | rangeWithBitmap span bitmap =>
    let gapSize := (val - span.stop).toNat
    let newBitmap ← liftM (Bitmap.fromBools (bitmap.iter ++ List.replicate gapSize false ++ [true]))
    pure (rangeWithBitmap ⟨span.start, val + 1⟩ newBitmap)
  | sortedArray encoded => pure (sortedArray (encoded.pushHigh val))
  | array encoded => pure (array (encoded.pushHigh val))

/-- At `u64::MAX` the exclusive end wraps to `0`: the empty segment
`from_slice` builds takes `u64::MAX` as its new highest value and becomes the
range `u64::MAX..0`, which yields no row id and claims one. -/
theorem withNewHigh_wraps_at_max :
    fromSlice [] = some (range ⟨0, 0⟩) ∧
      (range ⟨0, 0⟩).withNewHigh 0xFFFFFFFFFFFFFFFF = pure (range ⟨0xFFFFFFFFFFFFFFFF, 0⟩) ∧
      (range ⟨0xFFFFFFFFFFFFFFFF, 0⟩).iter = some [] ∧ (range ⟨0xFFFFFFFFFFFFFFFF, 0⟩).len = 1 :=
  ⟨rfl, rfl, rfl, rfl⟩

/-! ### The bitmap length the reader rebuilds -/

theorem len_bitmapWithout {stats : SegmentStats} {holes : List UInt64} {bitmap : Bitmap}
    (made : bitmapWithout stats holes = some bitmap) : bitmap.len = (stats.max - stats.min).toNat + 1 := by
  refine optionFoldlM_invariant (fun b : Bitmap => b.len = (stats.max - stats.min).toNat + 1) holes ?_
    (Bitmap.len_newFull _) made
  intro hole _ state next kept cleared
  rw [Bitmap.len_clear cleared, kept]

theorem computeStats_min_le_max (values : List UInt64) : (computeStats values).min ≤ (computeStats values).max := by
  have inv := statsInv_start.foldl values
  rw [List.nil_append] at inv
  by_cases counted : (values.foldl statsStep ⟨0xFFFFFFFFFFFFFFFF, 0, 0, true⟩).count = 0
  · simp only [computeStats, counted, if_true]
    exact UInt64.le_refl _
  · simp only [computeStats, counted, if_false]
    have nonempty : values ≠ [] := fun empty => counted (by rw [inv.count_eq, empty]; rfl)
    have least := inv.min_mem.resolve_right fun gone => nonempty gone.1
    exact inv.high _ least

/-- A range with a bitmap that `from_stats_and_sequence` builds from ordered
stats has the bitmap length the reader rebuilds. -/
theorem fromStatsAndSequence_bitmapLenMatches {stats : SegmentStats} {sequence : List UInt64} {segment : U64Segment}
    (ordered : stats.min ≤ stats.max) (built : fromStatsAndSequence stats sequence = some segment) :
    segment.BitmapLenMatches := by
  unfold fromStatsAndSequence at built
  dsimp only at built
  split at built
  · split at built
    · cases built; trivial
    · split at built
      · cases built; trivial
      · split at built
        · rename_i stop ending
          split at built
          · cases built; trivial
          · split at built
            · obtain ⟨bitmap, made, rfl⟩ := Option.map_eq_some_iff.mp built
              obtain ⟨fits, rfl⟩ := checkedAdd_eq_some.mp ending
              have ordered' := UInt64.le_iff_toNat_le.mp ordered
              simp only [BitmapLenMatches, len_bitmapWithout made, debugSub, toNat_add_of_lt fits,
                UInt64.toNat_sub_of_le _ _ ordered]
              rw [if_pos (by simp; omega)]
              simp
              omega
            · cases built; trivial
        · cases built; trivial
  · cases built; trivial

theorem fromSlice_bitmapLenMatches {values : List UInt64} {segment : U64Segment} (built : fromSlice values = some segment) :
    segment.BitmapLenMatches :=
  fromStatsAndSequence_bitmapLenMatches (computeStats_min_le_max values) built

theorem exceptT_pure_inj {a b : U64Segment} (same : (pure a : ExceptT String Option U64Segment) = pure b) : a = b := by
  change some (Except.ok a) = some (Except.ok b) at same
  simpa using same

/-- `with_new_high` keeps the bitmap length the reader rebuilds, when the new
value lies at or past the end of a bitmap that covers its length, and its
exclusive end `val + 1` does not wrap. -/
theorem withNewHigh_bitmapLenMatches {segment next : U64Segment} {val : UInt64}
    (lenMatches : segment.BitmapLenMatches)
    (covered : ∀ span bitmap, segment = rangeWithBitmap span bitmap →
      bitmap.len ≤ 8 * bitmap.data.length ∧ span.stop ≤ val)
    (belowMax : val.toNat + 1 < 2 ^ 64) (grown : segment.withNewHigh val = pure next) : next.BitmapLenMatches := by
  unfold withNewHigh at grown
  obtain ⟨found, -, grown⟩ := exceptT_bind_eq_pure.mp grown
  dsimp only at grown
  have extended : ∀ {result : ExceptT String Option U64Segment}, (match found with
      | some (_, top) => if val ≤ top then (throw (newHighError val top) : ExceptT String Option Unit) >>= fun _ => result
        else result
      | none => result) = pure next → result = pure next := by
    intro result ran
    split at ran
    · split at ran
      · cases ran
      · exact ran
    · exact ran
  have grown := extended grown
  cases segment with
  | range span =>
    dsimp only at grown
    split at grown
    · rw [← exceptT_pure_inj grown]; trivial
    · split at grown <;> (rw [← exceptT_pure_inj grown]; trivial)
  | rangeWithHoles span holes =>
    dsimp only at grown
    split at grown <;> (rw [← exceptT_pure_inj grown]; trivial)
  | rangeWithBitmap span bitmap =>
    obtain ⟨sized, reaches⟩ := covered span bitmap rfl
    dsimp only at grown
    obtain ⟨newBitmap, made, grown⟩ := exceptT_bind_eq_pure.mp grown
    rw [← exceptT_pure_inj grown]
    have made := Bitmap.len_fromBools (liftM_eq_pure.mp made)
    simp only [BitmapLenMatches, debugSub] at lenMatches ⊢
    split at lenMatches
    · rename_i ordered
      have oldLen := (Option.some.inj lenMatches).symm
      have reaches := UInt64.le_iff_toNat_le.mp reaches
      rw [made, List.length_append, List.length_append, Bitmap.length_iter sized, List.length_replicate,
        List.length_singleton, UInt64.toNat_sub_of_le _ _ (UInt64.le_iff_toNat_le.mpr reaches),
        toNat_add_of_lt (by simpa using belowMax), oldLen]
      rw [if_pos (by simp; omega)]
      simp
      omega
    · cases lenMatches
  | sortedArray encoded => rw [← exceptT_pure_inj grown]; trivial
  | array encoded => rw [← exceptT_pure_inj grown]; trivial

end U64Segment

end Lance.RowIds
