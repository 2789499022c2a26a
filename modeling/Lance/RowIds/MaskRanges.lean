import Lance.RowIds.Sequence
import Lance.RowIds.TreeMap
import Lance.Select.RowAddrMask
import Lance.Library.Runs

/-! `RowIdSequence::mask_to_offset_ranges` of `lance-table`: the positions of the
row ids a mask selects, as half-open ranges of offsets into the sequence. Each
segment kind has its own arm. A range is turned into a tree map, masked, and its
runs are turned back into offsets with `(frag << 32) | (end + 1)`; a range with
holes or with a bitmap removes its missing rows from the tree map, masks it, and
walks its addresses, counting the missing rows it passes; an array is filtered
position by position. Offsets are `u64`, so a step that leaves them panics, as in
a debug build. -/

namespace Lance.RowIds

open Lance.Library Lance.Select Lance.Select.RowAddrTreeMap

namespace MaskRanges

/-- The loop of the `Range` arm over the masked runs `(fragment, first..=last)`:
a run that starts where `cur` ends extends it, any other pushes `cur`. -/
def rangeRunsLoop (rangeStart offset : Nat) : Option (Nat × Nat) → List (UInt32 × UInt32 × UInt32) →
    Option (List (Nat × Nat))
  | cur, [] => some cur.toList
  | cur, (fragment, runFirst, runLast) :: rest => do
    let frag := fragment.toUInt64
    let runStart := (frag <<< 32) ||| runFirst.toUInt64
    let runEndExcl := (frag <<< 32) ||| (runLast.toUInt64 + 1)
    let start ← debugAdd 64 (← debugSub runStart.toNat rangeStart) offset
    let stop ← debugAdd 64 (← debugSub runEndExcl.toNat rangeStart) offset
    match cur with
    | some (curStart, curEnd) =>
      if curEnd = start then rangeRunsLoop rangeStart offset (some (curStart, stop)) rest
      else ((curStart, curEnd) :: ·) <$> rangeRunsLoop rangeStart offset (some (start, stop)) rest
    | none => rangeRunsLoop rangeStart offset (some (start, stop)) rest

def rangeOffsets (range : U64Range) (mask : RowAddrMask) (offset : Nat) : Option (List (Nat × Nat) × Nat) := do
  let ids ← ofRange range.start range.stop
  let runs ← (ids.mask mask).iterRuns
  let ranges ← rangeRunsLoop range.start.toNat offset none runs
  let offset ← debugAdd 64 offset (← debugSub range.stop.toNat range.start.toNat)
  pure (ranges, offset)

/-- The `while let` of the holes arm: the sorted holes below `addr` are passed
and counted. -/
def passHoles (addr : UInt64) : List UInt64 → Nat → List UInt64 × Nat
  | [], passed => ([], passed)
  | hole :: rest, passed => if hole < addr then passHoles addr rest (passed + 1) else (hole :: rest, passed)

/-- The closure of the holes arm over the masked addresses, in order:
`addr - range.start + offset_start - holes_passed`. -/
def holesOffsetsLoop (rangeStart offsetStart : Nat) : List UInt64 → Nat → List UInt64 → Option (List Nat)
  | _, _, [] => some []
  | holes, passed, addr :: rest => do
    let (holes, passed) := passHoles addr holes passed
    let value ← debugSub (← debugAdd 64 (← debugSub addr.toNat rangeStart) offsetStart) passed
    (value :: ·) <$> holesOffsetsLoop rangeStart offsetStart holes passed rest

/-- The `RangeWithHoles` arm. The offset moves on by the range's length less
each hole that the tree map held. -/
def holesOffsets (range : U64Range) (holes : EncodedU64Array) (mask : RowAddrMask) (offset : Nat) :
    Option (List (Nat × Nat) × Nat) := do
  let offsetStart := offset
  let ids ← ofRange range.start range.stop
  let offset ← debugAdd 64 offset (← debugSub range.stop.toNat range.start.toNat)
  let (ids, offset) ← holes.iter.foldlM (fun (state : RowAddrTreeMap × Nat) hole =>
    let (ids, removed) := state.1.remove hole
    if removed then (ids, ·) <$> debugSub state.2 1 else some (ids, state.2)) (ids, offset)
  let addrs ← (ids.mask mask).intoAddrIter
  let sortedHoles := holes.iter.mergeSort fun a b => decide (a ≤ b)
  let values ← holesOffsetsLoop range.start.toNat offsetStart sortedHoles 0 addrs
  pure (groupRuns values, offset)

/-- The `while` of the bitmap arm: the bits up to `target` are taken from the
bitmap's iterator, which panics when it runs dry, and the zeros counted. -/
def passBits (target : Nat) : List Bool → Nat → Nat → Option (List Bool × Nat × Nat)
  | [], pos, passed => if pos < target then none else some ([], pos, passed)
  | bit :: rest, pos, passed =>
    if pos < target then passBits target rest (pos + 1) (if bit then passed else passed + 1)
    else some (bit :: rest, pos, passed)

/-- The closure of the bitmap arm over the masked addresses, in order:
`offset_start + position_in_range - holes_passed`. -/
def bitmapOffsetsLoop (rangeStart offsetStart : Nat) : List Bool → Nat → Nat → List UInt64 → Option (List Nat)
  | _, _, _, [] => some []
  | bits, pos, passed, addr :: rest => do
    let positionInRange ← debugSub addr.toNat rangeStart
    let (bits, pos, passed) ← passBits positionInRange bits pos passed
    let value ← debugSub (← debugAdd 64 offsetStart positionInRange) passed
    (value :: ·) <$> bitmapOffsetsLoop rangeStart offsetStart bits pos passed rest

/-- The `RangeWithBitmap` arm. A row whose bit is clear is removed from the tree
map, and the offset moves on by the range's length less each row removed. -/
def bitmapOffsets (range : U64Range) (bitmap : Bitmap) (mask : RowAddrMask) (offset : Nat) :
    Option (List (Nat × Nat) × Nat) := do
  let ids ← ofRange range.start range.stop
  let offsetStart := offset
  let offset ← debugAdd 64 offset (← debugSub range.stop.toNat range.start.toNat)
  let (ids, offset) ← range.values.zipIdx.foldlM (fun (state : RowAddrTreeMap × Nat) (val, i) => do
    -- `!bitmap.get(i) && ids.remove(val)`: the row is removed only when its bit is clear
    if !(← bitmap.get i) then
      let (ids, removed) := state.1.remove val
      if removed then (ids, ·) <$> debugSub state.2 1 else pure (ids, state.2)
    else pure state) (ids, offset)
  let addrs ← (ids.mask mask).intoAddrIter
  let values ← bitmapOffsetsLoop range.start.toNat offsetStart bitmap.iter 0 0 addrs
  pure (groupRuns values, offset)

def arrayOffsets (array : EncodedU64Array) (mask : RowAddrMask) (offset : Nat) : Option (List (Nat × Nat) × Nat) := do
  let values ← ((array.iter.zipIdx.filter fun (id, _) => mask.selected id).mapM fun (_, off) => debugAdd 64 off offset)
  let offset ← debugAdd 64 offset array.len
  pure (groupRuns values, offset)

def segmentOffsetRanges (mask : RowAddrMask) (offset : Nat) : U64Segment → Option (List (Nat × Nat) × Nat)
  | .range range => rangeOffsets range mask offset
  | .rangeWithHoles range holes => holesOffsets range holes mask offset
  | .rangeWithBitmap range bitmap => bitmapOffsets range bitmap mask offset
  | .sortedArray array | .array array => arrayOffsets array mask offset

/-- The loop of `mask_to_offset_ranges` over the segments. -/
def maskToOffsetRangesLoop (mask : RowAddrMask) : List U64Segment → Nat → Option (List (Nat × Nat))
  | [], _ => some []
  | segment :: rest, offset => do
    let (ranges, offset) ← segmentOffsetRanges mask offset segment
    (ranges ++ ·) <$> maskToOffsetRangesLoop mask rest offset

end MaskRanges

open MaskRanges

/-- `mask_to_offset_ranges`: the offset ranges `start..end` of the selected rows. -/
def RowIdSequence.maskToOffsetRanges (sequence : RowIdSequence) (mask : RowAddrMask) : Option (List (Nat × Nat)) :=
  maskToOffsetRangesLoop mask sequence.segments 0

def oddFragmentEnd : RowIdSequence := ⟨[.range ⟨0x1FFFFFFFF, 0x200000000⟩]⟩

theorem ofRange_oddFragmentEnd :
    ofRange 0x1FFFFFFFF 0x200000000 = some ⟨AList.singleton 1 (.partialRows {0xFFFFFFFF})⟩ := by
  have high : ((0x1FFFFFFFF : UInt64) >>> 32).toUInt32 = 1 := by decide
  have low : (0x1FFFFFFFF : UInt64).toUInt32 = 0xFFFFFFFF := by decide
  have stop : saturatingSub 0x200000000 1 = 0x1FFFFFFFF := by decide
  rw [ofRange, insertRange]
  simp only [splitHighLow, stop, high, low]
  rw [insertRangeLoop_one_fragment (by decide) rfl]
  simp [new, insertRange_empty_single]

/-- The empty range `0..0` yields offset `0` of a sequence with no rows, and the
run that ends a fragment with an odd number makes `(frag << 32) | (end + 1)` fall
back to the start of that fragment, and the subtraction below it panics, though
the mask selects the sequence's only row. -/
theorem maskToOffsetRanges_empty_range_and_odd_fragment_end :
    emptyRange.len = 0 ∧ emptyRange.maskToOffsetRanges .allRows = some [(0, 1)] ∧
      oddFragmentEnd.len = 1 ∧ oddFragmentEnd.get 0 = some (some 0x1FFFFFFFF) ∧
      RowAddrMask.allRows.selected 0x1FFFFFFFF = true ∧ oddFragmentEnd.maskToOffsetRanges .allRows = none := by
  have zeroIds : ofRange 0 0 = some ⟨AList.singleton 0 (.partialRows {0})⟩ := by
    simp [ofRange, insertRange_zero_zero]
  refine ⟨rfl, ?_, rfl, rfl, rfl, ?_⟩
  · simp [RowIdSequence.maskToOffsetRanges, emptyRange, maskToOffsetRangesLoop, segmentOffsetRanges, rangeOffsets,
      zeroIds, mask_allRows, iterRuns_singleton, rangeRunsLoop, debugAdd, debugSub]
  · simp [RowIdSequence.maskToOffsetRanges, oddFragmentEnd, maskToOffsetRangesLoop, segmentOffsetRanges, rangeOffsets,
      ofRange_oddFragmentEnd, mask_allRows, iterRuns_singleton, rangeRunsLoop, debugAdd, debugSub]

end Lance.RowIds
