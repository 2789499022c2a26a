import Lance.Library.ExceptRun
import Lance.Library.WordArith
import Lance.RowIds.Index

/-! The row ids of a fragment as a whole (`rowids.rs`): their count, the row id
at a position, the row ids at sorted positions (`select`), a slice of
positions, `select_row_ids` over the read parameters of `lance-io`, and
`rechunk_sequences`, which cuts the segments of several sequences into chunks
of given sizes. Positions and sizes are `usize` values,
held as `Nat`, with a debug build's arithmetic where a subtraction could go
below zero; a panic is `none`. -/

namespace Lance.RowIds

open Lance.Library

namespace U64Segment

/-- `slice`: the `len` row ids from position `offset`, re-encoded. -/
def slice (segment : U64Segment) (offset len : Nat) : Option U64Segment :=
  if len = 0 then some (range ⟨0, 0⟩)
  else do
    let values ← segment.iter
    fromSlice ((values.drop offset).take len)

end U64Segment

namespace RowIdSequence

/-- `len`: the rows of all segments. The `u64` sum panics past `u64::MAX` in a
debug build; the statements about a sequence bound it below `2 ^ 64`. -/
def len (sequence : RowIdSequence) : Nat := (sequence.segments.map U64Segment.len).sum

/-- The loop of `get`, with the rows of the segments already passed; the
`usize` sum `offset + segment_len` panics past `usize::MAX`. -/
def getLoop : List U64Segment → Nat → Nat → Option (Option UInt64)
  | [], _, _ => some none
  | segment :: rest, index, offset => do
    let stop ← debugAdd 64 offset segment.len
    if index < stop then segment.get (index - offset) else getLoop rest index stop

/-- `get`: the row id at a position, none past the end. -/
def get (sequence : RowIdSequence) (index : Nat) : Option (Option UInt64) := getLoop sequence.segments index 0

/-- The cursor `select` keeps across the calls of its closure: the segments
still to come, the current one, the rows of the segments passed, the length
of the current segment and the last index seen. -/
structure SelectCursor where
  segIter : List U64Segment
  curSeg : Option U64Segment
  rowsPassed : Nat
  curSegLen : Nat
  lastIndex : Nat
  deriving DecidableEq, Repr

/-- The `while` loop of the closure of `select`: passes the segments that end
at or before `index`, and says whether a segment holds it. When the segments
run out first, `cur_seg?` leaves the closure with no row id, and the current
length stays that of the last segment. The selection is sorted by then, so
`index - rows_passed` does not go below zero. -/
def passSegments (index : Nat) (segIter : List U64Segment) (curSeg : Option U64Segment) (rowsPassed curSegLen : Nat) :
    (List U64Segment × Option U64Segment × Nat × Nat) × Bool :=
  if curSegLen ≤ index - rowsPassed then
    match segIter with
    | [] => (([], none, rowsPassed + curSegLen, curSegLen), false)
    | seg :: rest => passSegments index rest (some seg) (rowsPassed + curSegLen) seg.len
  else ((segIter, curSeg, rowsPassed, curSegLen), true)

/-- One call of the closure of `select` on `index`: the row id it yields, if
any, and the cursor after; none is a panic, of an unsorted selection or of a
segment that has no row at a position below its length. -/
def SelectCursor.step (cursor : SelectCursor) (index : Nat) : Option (Option UInt64 × SelectCursor) :=
  if index < cursor.lastIndex then none
  else if cursor.curSeg.isNone then some (none, { cursor with lastIndex := index })
  else
    match passSegments index cursor.segIter cursor.curSeg cursor.rowsPassed cursor.curSegLen with
    | ((segIter, curSeg, rowsPassed, curSegLen), found) =>
      let after : SelectCursor := ⟨segIter, curSeg, rowsPassed, curSegLen, index⟩
      if found then do
        let seg ← curSeg
        let rowId ← (← seg.get (index - rowsPassed))
        pure (some rowId, after)
      else some (none, after)

/-- The closure of `select` over the whole selection, as collecting the
iterator runs it. -/
def selectLoop : SelectCursor → List Nat → Option (List UInt64)
  | _, [] => some []
  | cursor, index :: rest => do
    let (found, cursor) ← cursor.step index
    let later ← selectLoop cursor rest
    pure (found.toList ++ later)

/-- `select`: the row ids at sorted positions, skipping those past the end. -/
def select (sequence : RowIdSequence) (selection : List Nat) : Option (List UInt64) :=
  let curSeg := sequence.segments.head?
  selectLoop ⟨sequence.segments.tail, curSeg, 0, (curSeg.map U64Segment.len).getD 0, 0⟩ selection

/-- `extend`: the segments of `other` after those of `sequence`, where a range
that ends where the next begins is joined with it. -/
def extend (sequence other : RowIdSequence) : RowIdSequence :=
  match sequence.segments.getLast?, other.segments.head? with
  | some (.range range1), some (.range range2) =>
    if range1.stop = range2.start then
      ⟨sequence.segments.dropLast ++ [.range ⟨range1.start, range2.stop⟩] ++ other.segments.tail⟩
    else ⟨sequence.segments ++ other.segments⟩
  | _, _ => ⟨sequence.segments ++ other.segments⟩

end RowIdSequence

/-- `RowIdSeqSlice`: the segments a slice covers, the position in the first to
start at, and the position in the last to stop before. -/
structure RowIdSeqSlice where
  segments : List U64Segment
  offsetStart : Nat
  offsetLast : Nat
  deriving DecidableEq, Repr

namespace RowIdSeqSlice

/-- The size `iter` reports: every row of the segments, less those before the
start and after the stop. -/
def knownSize (slice : RowIdSeqSlice) : Option Nat := do
  let total := (slice.segments.map U64Segment.len).sum
  let afterStart ← debugSub total slice.offsetStart
  let lastLen := (slice.segments.getLast?.map U64Segment.len).getD 0
  debugSub afterStart (← debugSub lastLen slice.offsetLast)

/-- The rows `iter` yields, segment by segment: the first from `offsetStart`,
the last up to `offsetLast`. -/
def rows (slice : RowIdSeqSlice) : Option (List UInt64) := do
  let stop := slice.segments.length - 1
  let pieces ← slice.segments.zipIdx.mapM fun (segment, i) => do
    let ids ← segment.iter
    if i = 0 ∧ slice.segments.length = 1 then
      let len ← debugSub slice.offsetLast slice.offsetStart
      pure ((ids.drop slice.offsetStart).take len)
    else if i = 0 then pure (ids.drop slice.offsetStart)
    else if i = stop then pure (ids.take slice.offsetLast)
    else pure ids
  pure pieces.flatten

/-- `iter`, collected: its rows, each counted off the size it reports, which
must not run out. -/
def iter (slice : RowIdSeqSlice) : Option (List UInt64) := do
  let knownSize ← slice.knownSize
  let rows ← slice.rows
  if rows.length ≤ knownSize then pure rows else none

end RowIdSeqSlice

namespace RowIdSequence

/-- The first loop of `slice`: the position in the first segment the slice
touches, and that segment's index. -/
def sliceStart : List U64Segment → Nat → Nat → Nat × Nat
  | [], offsetStart, segmentOffset => (offsetStart, segmentOffset)
  | segment :: rest, offsetStart, segmentOffset =>
    if offsetStart < segment.len then (offsetStart, segmentOffset)
    else sliceStart rest (offsetStart - segment.len) (segmentOffset + 1)

/-- The second loop of `slice`: the position to stop before in the last
segment the slice touches, and that segment's index. -/
def sliceLast : List U64Segment → Nat → Nat → Nat × Nat
  | [], offsetLast, segmentOffsetLast => (offsetLast, segmentOffsetLast)
  | segment :: rest, offsetLast, segmentOffsetLast =>
    if offsetLast ≤ segment.len then (offsetLast, segmentOffsetLast)
    else sliceLast rest (offsetLast - segment.len) (segmentOffsetLast + 1)

/-- `slice`: the segments from the one holding position `offset` to the one
holding position `offset + len - 1`; indexing past the last segment panics. -/
def slice (sequence : RowIdSequence) (offset len : Nat) : Option RowIdSeqSlice :=
  if len = 0 then some ⟨[], 0, 0⟩
  else do
    let (offsetStart, segmentOffset) := sliceStart sequence.segments offset 0
    let offsetLast ← debugAdd 64 offsetStart len
    let (offsetLast, segmentOffsetLast) :=
      sliceLast (sequence.segments.drop segmentOffset) offsetLast segmentOffset
    if segmentOffsetLast < sequence.segments.length then
      pure ⟨(sequence.segments.take (segmentOffsetLast + 1)).drop segmentOffset, offsetStart, offsetLast⟩
    else none

end RowIdSequence

/-- `ReadBatchParams` of `lance-io`: the rows a read selects. -/
inductive ReadBatchParams where
  | range (start stop : Nat)
  | ranges (ranges : List U64Range)
  | rangeFull
  | rangeTo (stop : Nat)
  | rangeFrom (start : Nat)
  | indices (indices : List UInt32)
  deriving DecidableEq, Repr

/-- `select_row_ids`: the row ids at the positions the parameters select. -/
def selectRowIds (sequence : RowIdSequence) (offsets : ReadBatchParams) : ExceptT String Option (List UInt64) :=
  let outOfBoundsErr (offset : UInt32) : String :=
    "Index out of bounds: " ++ toString offset ++ " for sequence of length " ++ toString sequence.len
  match offsets with
  | .indices indices => indices.mapM fun index => do
    match ← (sequence.get index.toNat : Option (Option UInt64)) with
    | some rowId => pure rowId
    | none => throw (outOfBoundsErr index)
  | .range start stop =>
    if stop > sequence.len then throw (outOfBoundsErr (UInt32.ofNat stop))
    else do
      let len ← (debugSub stop start : Option Nat)
      let slice ← (sequence.slice start len : Option RowIdSeqSlice)
      (slice.iter : Option (List UInt64))
  | .ranges ranges => do
    -- the capacity: `(r.end - r.start) as usize` summed
    let _ ← (ranges.mapM fun range => debugSub range.stop.toNat range.start.toNat : Option (List Nat))
    ranges.foldlM (fun result range => do
      if range.stop.toNat > sequence.len then throw (outOfBoundsErr range.stop.toUInt32)
      else
        let len ← (debugSub range.stop.toNat range.start.toNat : Option Nat)
        let slice ← (sequence.slice range.start.toNat len : Option RowIdSeqSlice)
        let rows ← (slice.iter : Option (List UInt64))
        pure (result ++ rows)) []
  | .rangeFull => (sequence.iter : Option (List UInt64))
  | .rangeTo stop =>
    if stop > sequence.len then throw (outOfBoundsErr (UInt32.ofNat stop))
    else do
      let slice ← (sequence.slice 0 stop : Option RowIdSeqSlice)
      (slice.iter : Option (List UInt64))
  | .rangeFrom start => do
    let len ← (debugSub sequence.len start : Option Nat)
    let slice ← (sequence.slice start len : Option RowIdSeqSlice)
    (slice.iter : Option (List UInt64))

/-- A read from past the end of the sequence panics on the length it computes,
`len - start`, where the other parameters return an error. -/
theorem selectRowIds_rangeFrom_past_end {sequence : RowIdSequence} {start : Nat} (past : sequence.len < start) :
    selectRowIds sequence (.rangeFrom start) = ExceptT.mk none := by
  have below : debugSub sequence.len start = none := if_neg (by omega)
  simp only [selectRowIds, below, liftM_none, panic_bind]

theorem selectRowIds_rangeFrom_past_end_at_one_row :
    (⟨[.range ⟨0, 1⟩]⟩ : RowIdSequence).len < 2 ∧
      selectRowIds ⟨[.range ⟨0, 1⟩]⟩ (.rangeFrom 2) = ExceptT.mk none :=
  ⟨by decide, selectRowIds_rangeFrom_past_end (by decide)⟩

/-! ### `rechunk_sequences` -/

def tooFewSegmentsError (chunkIndex : Nat) (expectedChunkSize remaining : UInt64) : String :=
  "Got too few segments for chunk " ++ toString chunkIndex ++ ". Expected chunk size: " ++
    toString expectedChunkSize ++ ", remaining needed: " ++ toString remaining

def tooManySegmentsError (processedChunks totalChunkSizes : Nat) : String :=
  "Got too many segments for the provided chunk lengths. Processed " ++ toString processedChunks ++
    " chunks out of " ++ toString totalChunkSizes ++ " expected"

/-- The `while remaining > 0` loop of one chunk, over the segments not yet used
up: the chunk's sequence, the segments left, and the position reached in the
first of them. -/
def fillChunk (allowIncomplete : Bool) (chunkIndex : Nat) (chunkSize : UInt64) :
    List U64Segment → UInt64 → UInt64 → RowIdSequence →
      ExceptT String Option (RowIdSequence × List U64Segment × UInt64)
  | segments, segmentOffset, remaining, sequence =>
    if remaining > 0 then
      match segments with
      | [] =>
        -- no segment left to peek at
        if allowIncomplete then pure (sequence, [], segmentOffset)
        else throw (tooFewSegmentsError chunkIndex chunkSize remaining)
      | segment :: rest =>
        let remainingInSegment := UInt64.ofNat segment.len - segmentOffset
        if remainingInSegment = 0 then fillChunk allowIncomplete chunkIndex chunkSize rest 0 remaining sequence
        else if remainingInSegment > remaining then do
          let piece ← (segment.slice segmentOffset.toNat remaining.toNat : Option U64Segment)
          pure (sequence.extend ⟨[piece]⟩, segments, segmentOffset + remaining)
        else do
          let piece ← (segment.slice segmentOffset.toNat remainingInSegment.toNat : Option U64Segment)
          fillChunk allowIncomplete chunkIndex chunkSize rest 0 (remaining - remainingInSegment)
            (sequence.extend ⟨[piece]⟩)
    else pure (sequence, segments, segmentOffset)

/-- `rechunk_sequences`: the segments of all sequences, cut into chunks of the
given sizes; segments left over are an error. -/
def rechunkSequences (sequences : List RowIdSequence) (chunkSizes : List UInt64) (allowIncomplete : Bool) :
    ExceptT String Option (List RowIdSequence) := do
  let (chunkedSequences, segments, _) ← chunkSizes.zipIdx.foldlM
    (fun (chunked, segments, segmentOffset) (chunkSize, chunkIndex) => do
      let (sequence, segments, segmentOffset) ←
        fillChunk allowIncomplete chunkIndex chunkSize segments segmentOffset chunkSize ⟨[]⟩
      pure (chunked ++ [sequence], segments, segmentOffset))
    (([] : List RowIdSequence), sequences.flatMap RowIdSequence.segments, (0 : UInt64))
  if !segments.isEmpty then throw (tooManySegmentsError chunkedSequences.length chunkSizes.length)
  else pure chunkedSequences

def trailingEmpty : List RowIdSequence := [⟨[.range ⟨0, 2⟩]⟩, ⟨[.range ⟨10, 10⟩]⟩]

/-- A chunk stops taking segments once it is full, so an empty segment after the
last row is left over, and counted as a segment too many. -/
theorem rechunkSequences_trailing_empty_segment :
    (trailingEmpty.map RowIdSequence.len).sum = 2 ∧
      rechunkSequences trailingEmpty [2] false = throw (tooManySegmentsError 1 1) :=
  ⟨by decide, rfl⟩

end Lance.RowIds
