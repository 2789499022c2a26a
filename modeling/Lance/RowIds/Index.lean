import Lance.Core.RowAddress
import Lance.Library.RangeMap
import Lance.RowIds.Segment

/-! The row id index of `lance-table`: for the fragments of a dataset, a map from
each stable row id to the address of the row that holds it. `new` cuts every
fragment's sequence into chunks of (row id, address) pairs, one chunk per
segment, sorts the chunks by the first row id they cover, gathers chunks whose
covered ranges overlap into clusters, merges each cluster into one chunk (and
fails when a row id is found twice), and keys the chunks by their covered
ranges. `get` looks a row id up in the chunk whose range covers it. -/

namespace Lance.RowIds

open Lance.Library Lance.Core

/-- `DeletionVector`: the offsets of the deleted rows of a fragment, whichever
of a hash set or a roaring bitmap the source keeps them in. -/
structure DeletionVector where
  deleted : List UInt32
  deriving DecidableEq, Repr

namespace DeletionVector

def contains (vector : DeletionVector) (i : UInt32) : Bool := vector.deleted.contains i

/-- `is_empty`: no row is deleted. -/
def isEmpty (vector : DeletionVector) : Bool := vector.deleted.isEmpty

end DeletionVector

/-- `RowIdSequence::iter`: the row ids of the segments, one segment after the other. -/
def RowIdSequence.iter (sequence : RowIdSequence) : Option (List UInt64) :=
  (sequence.segments.mapM U64Segment.iter).map List.flatten

structure FragmentRowIdIndex where
  fragmentId : UInt32
  rowIdSequence : RowIdSequence
  deletionVector : DeletionVector
  deriving DecidableEq, Repr

/-- `IndexChunk`: the inclusive range of row ids a chunk covers, with a segment
of its row ids and a segment of their addresses, position for position. -/
structure IndexChunk where
  coverage : UInt64 × UInt64
  rowIds : U64Segment
  addresses : U64Segment
  deriving DecidableEq, Repr

/-- The (row id, address) pairs of a chunk as `merge_overlapping_chunks` reads
them: its two segments zipped. -/
def IndexChunk.pairs (chunk : IndexChunk) : Option (List (UInt64 × UInt64)) := do
  let rowIds ← chunk.rowIds.iter
  let rowAddrs ← chunk.addresses.iter
  pure (rowIds.zip rowAddrs)

/-- `build_chunk_from_pairs`: both segments built from the pairs, covering the
range of the row ids; no chunk for no pairs. -/
def buildChunkFromPairs (pairs : List (UInt64 × UInt64)) : Option (Option IndexChunk) :=
  if pairs.isEmpty then some none
  else do
    let rowIdSegment ← U64Segment.fromSlice (pairs.map Prod.fst)
    let addressSegment ← U64Segment.fromSlice (pairs.map Prod.snd)
    let coverage ← rowIdSegment.valueRange
    pure (coverage.map fun coverage => ⟨coverage, rowIdSegment, addressSegment⟩)

/-- The two last arms of `decompose_segment_no_deletions`: no chunk for an empty
segment, and otherwise each row id paired with its address in iteration order. -/
def decomposeByIteration (segment : U64Segment) (startAddress : UInt64) : Option (Option IndexChunk) :=
  if segment.len = 0 then some none
  else do
    let rowIds ← segment.iter
    buildChunkFromPairs (rowIds.zipIdx.map fun (rowId, i) => (rowId, startAddress + UInt64.ofNat i))

/-- `decompose_segment_no_deletions`: a range that holds rows maps to the range
of addresses of the same length. -/
def decomposeSegmentNoDeletions (segment : U64Segment) (startAddress : UInt64) : Option (Option IndexChunk) :=
  match segment with
  | .range span =>
    if !span.isEmpty then
      let len := span.stop - span.start
      some (some ⟨(span.start, span.stop - 1), .range span, .range ⟨startAddress, startAddress + len⟩⟩)
    else decomposeByIteration segment startAddress
  | _ => decomposeByIteration segment startAddress

/-- `decompose_segment_with_deletions`: the rows whose offset in the fragment the
deletion vector does not hold. -/
def decomposeSegmentWithDeletions (segment : U64Segment) (startAddress : UInt64) (currentOffset : UInt32)
    (deletionVector : DeletionVector) : Option (Option IndexChunk) := do
  let rowIds ← segment.iter
  buildChunkFromPairs (rowIds.zipIdx.filterMap fun (rowId, i) =>
    let rowOffset := currentOffset + UInt32.ofNat i
    if !deletionVector.contains rowOffset then some (rowId, startAddress + UInt64.ofNat i) else none)

/-- The segment loop of `decompose_sequence`: after each segment the address and
the offset of the next row move on by the segment's `len`. -/
def decomposeSegments (deletionVector : DeletionVector) (noDeletions : Bool) :
    List U64Segment → UInt64 → UInt32 → Option (List IndexChunk)
  | [], _, _ => some []
  | segment :: rest, startAddress, currentOffset => do
    let segmentLen := segment.len
    let result ← if noDeletions then decomposeSegmentNoDeletions segment startAddress
      else decomposeSegmentWithDeletions segment startAddress currentOffset deletionVector
    let later ← decomposeSegments deletionVector noDeletions rest
      (startAddress + UInt64.ofNat segmentLen) (currentOffset + UInt32.ofNat segmentLen)
    pure (result.toList ++ later)

def decomposeSequence (fragIndex : FragmentRowIdIndex) : Option (List IndexChunk) :=
  decomposeSegments fragIndex.deletionVector fragIndex.deletionVector.isEmpty fragIndex.rowIdSequence.segments
    (RowAddress.firstRow fragIndex.fragmentId).raw 0

/-- `RawIndexChunk`: a chunk that overlaps no other, or a cluster of
overlapping chunks with the range they span together. -/
inductive RawIndexChunk where
  | nonOverlapping (chunk : IndexChunk)
  | overlapping (range : UInt64 × UInt64) (chunks : List IndexChunk)
  deriving DecidableEq, Repr

def RawIndexChunk.rangeEnd : RawIndexChunk → UInt64
  | nonOverlapping chunk => chunk.coverage.2
  | overlapping range _ => range.2

/-- The state of the loop of `prep_index_chunks`: `output` newest first, and the
cluster being gathered with the range it spans. -/
structure PrepState where
  output : List RawIndexChunk
  currentRange : UInt64 × UInt64
  currentOverlap : List IndexChunk
  deriving DecidableEq, Repr

/-- One chunk of the loop of `prep_index_chunks`, in increasing order of the
first row id covered; `none` where an `unwrap` or `unreachable!` panics. -/
def prepStep (state : PrepState) (chunk : IndexChunk) : Option PrepState :=
  if state.currentOverlap.isEmpty then
    match state.output with
    | [] => none
    | last :: earlier =>
      if chunk.coverage.1 ≤ last.rangeEnd then
        -- the chunk overlaps the last one pushed: both start a cluster
        match last with
        | .nonOverlapping first =>
          some ⟨earlier, (first.coverage.1, max chunk.coverage.2 first.coverage.2), [first, chunk]⟩
        | .overlapping _ _ => none
      else some { state with output := .nonOverlapping chunk :: state.output }
  else if chunk.coverage.1 ≤ state.currentRange.2 then
    some { state with
      currentRange := (state.currentRange.1, max chunk.coverage.2 state.currentRange.2)
      currentOverlap := state.currentOverlap ++ [chunk] }
  else
    -- the cluster is closed, and the chunk starts afresh
    some ⟨.nonOverlapping chunk :: .overlapping state.currentRange state.currentOverlap :: state.output, (0, 0), []⟩

/-- `prep_index_chunks`: sorted by `u64::MAX - start` and popped from the back,
the chunks come in increasing order of their first covered row id. -/
def prepIndexChunks (chunks : List IndexChunk) : Option (List RawIndexChunk) :=
  let sorted := chunks.mergeSort fun a b =>
    decide (0xFFFFFFFFFFFFFFFF - a.coverage.1 ≤ 0xFFFFFFFFFFFFFFFF - b.coverage.1)
  match sorted.reverse with
  | [] => some []
  | first :: rest => do
    let state ← rest.foldlM prepStep ⟨[.nonOverlapping first], (0, 0), []⟩
    let output := if state.currentOverlap.isEmpty then state.output
      else .overlapping state.currentRange state.currentOverlap :: state.output
    pure output.reverse

/-- `values.windows(2).find(|w| w[0].0 == w[1].0)`: the row id of the first two
neighbours that share one. -/
def findAdjacentDuplicate : List (UInt64 × UInt64) → Option UInt64
  | first :: second :: rest =>
    if first.1 == second.1 then some first.1 else findAdjacentDuplicate (second :: rest)
  | _ => none

/-- `merge_overlapping_chunks`: the pairs of all chunks, sorted by row id; a
row id met twice is an error. -/
def mergeOverlappingChunks (overlappingChunks : List IndexChunk) : ExceptT String Option IndexChunk := do
  let pieces ← (overlappingChunks.mapM IndexChunk.pairs : Option (List (List (UInt64 × UInt64))))
  let values := pieces.flatten.mergeSort fun a b => decide (a.1 ≤ b.1)
  match findAdjacentDuplicate values with
  | some rowId =>
    throw ("row id index corrupt: stable row id " ++ toString rowId ++ " is live in multiple fragments")
  | none =>
    let rowIdSegment ← (U64Segment.fromSlice (values.map Prod.fst) : Option U64Segment)
    let addressSegment ← (U64Segment.fromSlice (values.map Prod.snd) : Option U64Segment)
    match ← (rowIdSegment.valueRange : Option (Option (UInt64 × UInt64))) with
    | some range => pure ⟨range, rowIdSegment, addressSegment⟩
    -- `unwrap` of no range panics
    | none => ExceptT.mk none

/-- `RowIdIndex`: the chunks keyed by the ranges they cover, in a range map
of the `rangemap` crate, of type `Map`. -/
structure RowIdIndex (Map : Type) where
  map : Map

namespace RowIdIndex

variable {Map : Type} (ops : RangeMapOps UInt64 (U64Segment × U64Segment) Map)

/-- The loop of `new` over the prepared chunks: a lone chunk is kept, a cluster
is merged, and the first merge that fails ends `new` with its error. -/
def finishChunks : List RawIndexChunk → ExceptT String Option (List IndexChunk)
  | [] => pure []
  | .nonOverlapping chunk :: rest => return chunk :: (← finishChunks rest)
  | .overlapping _ overlapping :: rest => do
    let merged ← mergeOverlappingChunks overlapping
    return merged :: (← finishChunks rest)

def new (fragmentIndices : List FragmentRowIdIndex) : ExceptT String Option (RowIdIndex Map) := do
  let chunks ← ((fragmentIndices.mapM decomposeSequence).map List.flatten : Option (List IndexChunk))
  let processed ← (prepIndexChunks chunks : Option (List RawIndexChunk))
  let finalChunks ← finishChunks processed
  let map ← (ops.fromIter (finalChunks.map fun chunk => (chunk.coverage, (chunk.rowIds, chunk.addresses))) : Option Map)
  pure ⟨map⟩

/-- `get`: the address at the row id's position in the chunk that covers it. -/
def get (index : RowIdIndex Map) (rowId : UInt64) : Option (Option RowAddress) :=
  match ops.get index.map rowId with
  | none => some none
  | some (rowIdSegment, addressSegment) => do
    match ← rowIdSegment.position rowId with
    | none => pure none
    | some pos => return (← addressSegment.get pos).map RowAddress.mk

/-- The address a chunk holds for a row id, as both `get` and `get_many` find it:
the address at the row id's position in the row id segment. -/
def addressIn (rowIdSegment addressSegment : U64Segment) (rowId : UInt64) : Option (Option RowAddress) := do
  match ← rowIdSegment.position rowId with
  | none => pure none
  | some pos => return (← addressSegment.get pos).map RowAddress.mk

/-- The loop of `get_many` over the row ids in increasing order, each with its
place in the input, while `chunks`, the peekable iterator over the map, walks
the chunks once. -/
def getManyLoop : List ((UInt64 × UInt64) × (U64Segment × U64Segment)) → List (UInt64 × Nat) →
    List (Option RowAddress) → Option (List (Option RowAddress))
  | _, [], out => some out
  | chunks, (id, origIdx) :: sorted, out =>
    -- advance past the chunks that end before this id
    match chunks.dropWhile fun chunk => decide (chunk.1.2 < id) with
    -- `break`: no chunk is left
    | [] => some out
    | (range, (rowIdSeg, addrSeg)) :: later =>
      -- `continue`: the id falls in a gap between chunks
      if id < range.1 then getManyLoop ((range, (rowIdSeg, addrSeg)) :: later) sorted out
      else do
        let found ← addressIn rowIdSeg addrSeg id
        -- `out[orig_idx]` is in bounds: the places are those of the input
        getManyLoop ((range, (rowIdSeg, addrSeg)) :: later) sorted
          (match found with
           | some address => out.set origIdx (some address)
           | none => out)

/-- `get_many`: the addresses of many row ids, one entry per row id in input
order. A working copy of the row ids, each with its place, is sorted by row id
(`sort_unstable_by_key`; the order among equal row ids changes nothing), and
the map is walked once. -/
def getMany (index : RowIdIndex Map) (rowIds : List UInt64) : Option (List (Option RowAddress)) :=
  let n := rowIds.length
  let out := List.replicate n none
  if n = 0 then some out
  else
    let sorted := (rowIds.zip (List.range n)).mergeSort fun a b => decide (a.1 ≤ b.1)
    getManyLoop (ops.iter index.map) sorted out

end RowIdIndex

end Lance.RowIds
