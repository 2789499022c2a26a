import Lance.RowIds.FromSlice
import Lance.RowIds.Index

/-! The chunks `decompose_sequence` cuts a fragment into. A chunk holds a list
of (row id, address) rows when both its segments stand for their columns and
its coverage runs from the least to the greatest row id. Every fragment whose
segments count what they yield is cut into chunks that together hold its live
rows: each row id the deletion vector leaves, with the address of its offset. -/

namespace Lance.RowIds

open Lance.Library Lance.Core
open U64Segment (Represents represents_fromSlice)
open EncodedU64Array (Bounds)

namespace IndexChunk

/-- The chunk holds `rows`, in the order of its segments. -/
structure Holds (chunk : IndexChunk) (rows : List (UInt64 × UInt64)) : Prop where
  rowIds : Represents chunk.rowIds (rows.map Prod.fst)
  addresses : Represents chunk.addresses (rows.map Prod.snd)
  coverage : Bounds (rows.map Prod.fst) chunk.coverage.1 chunk.coverage.2

/-- The pairs a chunk yields, none where reading them panics. -/
def rows (chunk : IndexChunk) : List (UInt64 × UInt64) := chunk.pairs.getD []

theorem zip_map_fst_snd (rows : List (UInt64 × UInt64)) : (rows.map Prod.fst).zip (rows.map Prod.snd) = rows := by
  rw [← List.unzip_fst, ← List.unzip_snd, List.zip_unzip]

theorem Holds.pairs_eq {chunk : IndexChunk} {rows : List (UInt64 × UInt64)} (holds : chunk.Holds rows) :
    chunk.pairs = some rows := by
  simp only [pairs, holds.rowIds.iter_eq, holds.addresses.iter_eq, Option.bind_eq_bind, Option.bind_some,
    zip_map_fst_snd, Option.pure_def]

theorem Holds.rows_eq {chunk : IndexChunk} {rows : List (UInt64 × UInt64)} (holds : chunk.Holds rows) :
    chunk.rows = rows := by
  rw [IndexChunk.rows, holds.pairs_eq, Option.getD_some]

theorem Holds.ne_nil {chunk : IndexChunk} {rows : List (UInt64 × UInt64)} (holds : chunk.Holds rows) :
    rows ≠ [] := by
  rintro rfl
  exact holds.coverage.ne_nil rfl

end IndexChunk

/-- Chunks that each hold the pairs they yield, and together yield `rows` in
some order. -/
structure Spans (chunks : List IndexChunk) (rows : List (UInt64 × UInt64)) : Prop where
  holds : ∀ chunk ∈ chunks, chunk.Holds chunk.rows
  perm : (chunks.flatMap IndexChunk.rows).Perm rows

namespace Spans

theorem nil : Spans [] [] := ⟨by simp, by simp⟩

theorem single {chunk : IndexChunk} {rows : List (UInt64 × UInt64)} (holds : chunk.Holds rows) :
    Spans [chunk] rows := by
  refine ⟨?_, ?_⟩
  · intro other member
    rw [List.mem_singleton.mp member, holds.rows_eq]
    exact holds
  · rw [List.flatMap_singleton, holds.rows_eq]

theorem append {chunks others : List IndexChunk} {rows rest : List (UInt64 × UInt64)}
    (spans : Spans chunks rows) (more : Spans others rest) : Spans (chunks ++ others) (rows ++ rest) := by
  refine ⟨?_, ?_⟩
  · intro chunk member
    rcases List.mem_append.mp member with early | late
    · exact spans.holds chunk early
    · exact more.holds chunk late
  · rw [List.flatMap_append]
    exact spans.perm.append more.perm

theorem flatten {groups : List (List IndexChunk)} {parts : List (List (UInt64 × UInt64))}
    (each : List.Forall₂ Spans groups parts) : Spans groups.flatten parts.flatten := by
  induction each with
  | nil => exact nil
  | cons first _ ih => exact first.append ih

end Spans

/-- `build_chunk_from_pairs` on pairs without a repeated row id or address
builds a chunk that holds them, and none for no pairs. -/
theorem buildChunkFromPairs_spans {pairs : List (UInt64 × UInt64)} (ids : (pairs.map Prod.fst).Nodup)
    (addrs : (pairs.map Prod.snd).Nodup) :
    ∃ built, buildChunkFromPairs pairs = some built ∧ Spans built.toList pairs := by
  by_cases empty : pairs = []
  · subst empty
    exact ⟨none, rfl, Spans.nil⟩
  have nonempty : pairs.map Prod.fst ≠ [] := by simpa using empty
  obtain ⟨rowIdSegment, rowIdsBuilt, rowIdsRep⟩ := represents_fromSlice ids
  obtain ⟨addressSegment, addrsBuilt, addrsRep⟩ := represents_fromSlice addrs
  obtain ⟨lo, hi, bounds⟩ := EncodedU64Array.bounds_of_ne_nil nonempty
  refine ⟨some ⟨(lo, hi), rowIdSegment, addressSegment⟩, ?_, Spans.single ⟨rowIdsRep, addrsRep, bounds⟩⟩
  have notEmpty : pairs.isEmpty = false := List.isEmpty_eq_false_iff.mpr empty
  simp only [buildChunkFromPairs, notEmpty, Bool.false_eq_true, if_false, rowIdsBuilt, addrsBuilt,
    Option.bind_eq_bind, Option.bind_some, rowIdsRep.valueRange_bounds lo hi bounds, Option.map_some, Option.pure_def]

/-! ### The rows of a fragment -/

/-- A segment's `len` counts the row ids it yields. -/
def U64Segment.LenMatches (segment : U64Segment) : Prop := segment.iter.map List.length = some segment.len

instance : DecidablePred U64Segment.LenMatches := fun _ => inferInstanceAs (Decidable (_ = _))

/-- The rows of `ids` from offset `k` of a fragment whose first row has address
`base`: each row id whose offset the deletion vector does not hold, with the
address of its offset. -/
def offsetRows (deletionVector : DeletionVector) (base : UInt64) (ids : List UInt64) (k : Nat) :
    List (UInt64 × UInt64) :=
  ((ids.zipIdx k).filter fun entry => !deletionVector.contains (UInt32.ofNat entry.2)).map
    fun entry => (entry.1, base + UInt64.ofNat entry.2)

def FragmentRowIdIndex.liveRows (frag : FragmentRowIdIndex) : List (UInt64 × UInt64) :=
  (frag.rowIdSequence.iter.map fun ids =>
    offsetRows frag.deletionVector (RowAddress.firstRow frag.fragmentId).raw ids 0).getD []

/-- A fragment as a dataset writes it: each segment's `len` counts what it
yields, there are fewer than `2 ^ 32` rows (a row offset is a `u32`), and no
live row id comes twice. -/
structure FragmentRowIdIndex.WellFormed (frag : FragmentRowIdIndex) : Prop where
  lenMatches : ∀ segment ∈ frag.rowIdSequence.segments, segment.LenMatches
  fits : (frag.rowIdSequence.segments.map U64Segment.len).sum < 2 ^ 32
  distinct : (frag.liveRows.map Prod.fst).Nodup

section OffsetRows

variable {dv : DeletionVector} {base : UInt64}

theorem offsetRows_append (xs ys : List UInt64) (k : Nat) :
    offsetRows dv base (xs ++ ys) k = offsetRows dv base xs k ++ offsetRows dv base ys (k + xs.length) := by
  simp only [offsetRows, List.zipIdx_append, List.filter_append, List.map_append]

theorem nodup_addresses_offsetRows {ids : List UInt64} {k : Nat} (fits : base.toNat + k + ids.length < 2 ^ 64) :
    ((offsetRows dv base ids k).map Prod.snd).Nodup := by
  have offsets : (((ids.zipIdx k).filter fun entry => !dv.contains (UInt32.ofNat entry.2)).map Prod.snd).Nodup :=
    (List.nodup_range' ..).sublist (by
      rw [← List.zipIdx_map_snd k ids]
      exact List.filter_sublist.map _)
  rw [offsetRows, List.map_map]
  have shifted := offsets.map_on (f := fun i => base + UInt64.ofNat i) fun i member j other same => by
    obtain ⟨⟨_, i'⟩, iMember, rfl⟩ := List.mem_map.mp member
    obtain ⟨⟨_, j'⟩, jMember, rfl⟩ := List.mem_map.mp other
    have iBound := (List.mem_zipIdx (List.mem_filter.mp iMember).1).2.1
    have jBound := (List.mem_zipIdx (List.mem_filter.mp jMember).1).2.1
    have sums := congrArg UInt64.toNat same
    rw [toNat_add_ofNat (by omega), toNat_add_ofNat (by omega)] at sums
    simp only
    omega
  rw [List.map_map] at shifted
  exact shifted

theorem offsetRows_of_none_deleted (undeleted : ∀ x, dv.contains x = false) (ids : List UInt64) (k : Nat) :
    offsetRows dv base ids k = (ids.zipIdx k).map fun entry => (entry.1, base + UInt64.ofNat entry.2) := by
  rw [offsetRows, List.filter_eq_self.mpr (fun entry _ => by simp [undeleted])]

theorem filterMap_zipIdx_eq_offsetRows (k : Nat) :
    ∀ (ids : List UInt64) (j : Nat), (ids.zipIdx j).filterMap (fun (rowId, i) =>
      let rowOffset := UInt32.ofNat k + UInt32.ofNat i
      if !dv.contains rowOffset then some (rowId, base + UInt64.ofNat k + UInt64.ofNat i) else none) =
        offsetRows dv base ids (k + j)
  | [], _ => rfl
  | rowId :: rest, j => by
    have offset : UInt32.ofNat k + UInt32.ofNat j = UInt32.ofNat (k + j) := (UInt32.ofNat_add k j).symm
    have address : base + UInt64.ofNat k + UInt64.ofNat j = base + UInt64.ofNat (k + j) := by
      rw [UInt64.add_assoc, ← UInt64.ofNat_add]
    rw [List.zipIdx_cons, List.filterMap_cons, filterMap_zipIdx_eq_offsetRows k rest (j + 1)]
    simp only [offset, address]
    have later : k + (j + 1) = k + j + 1 := by omega
    by_cases deleted : dv.contains (UInt32.ofNat (k + j)) = true
    · simp only [deleted, Bool.not_true, Bool.false_eq_true, if_false, later, offsetRows, List.zipIdx_cons,
        List.filter_cons, if_false]
    · simp only [deleted, Bool.not_false, if_true, later, offsetRows, List.zipIdx_cons, List.filter_cons, List.map_cons]

theorem map_zipIdx_eq_offsetRows (undeleted : ∀ x, dv.contains x = false) (k : Nat) (ids : List UInt64) :
    ids.zipIdx.map (fun (rowId, i) => (rowId, base + UInt64.ofNat k + UInt64.ofNat i)) = offsetRows dv base ids k := by
  rw [offsetRows_of_none_deleted undeleted, List.zipIdx_eq_map_add (i := k), List.map_map]
  congr 1
  funext entry
  simp only [Function.comp_apply, UInt64.ofNat_add, UInt64.add_assoc]

end OffsetRows

/-! ### One segment -/

section Segment

variable {dv : DeletionVector} {base : UInt64} {segment : U64Segment} {ids : List UInt64} {k : Nat}

theorem U64Range.bounds_values (span : U64Range) (nonempty : span.start < span.stop) :
    Bounds span.values span.start (span.stop - 1) := by
  have bounded := U64Range.mem_values_iff_le span nonempty
  have startMem : span.start ∈ span.values := (U64Range.mem_values span _).mpr ⟨UInt64.le_refl _, nonempty⟩
  have lastMem : span.stop - 1 ∈ span.values := (bounded _).mpr ⟨((bounded _).mp startMem).2, UInt64.le_refl _⟩
  exact Bounds.of_mem startMem lastMem (fun v member => ((bounded v).mp member).1)
    (fun v member => ((bounded v).mp member).2)

theorem U64Range.values_add (start : UInt64) (len : Nat) (fits : start.toNat + len < 2 ^ 64) :
    (⟨start, start + UInt64.ofNat len⟩ : U64Range).values = (List.range len).map fun j => start + UInt64.ofNat j := by
  rw [U64Range.values, toNat_add_ofNat fits, Nat.add_sub_cancel_left]

theorem decomposeSegmentWithDeletions_spans (iter : segment.iter = some ids)
    (fits : base.toNat + k + ids.length < 2 ^ 64) (distinct : ((offsetRows dv base ids k).map Prod.fst).Nodup) :
    ∃ built, decomposeSegmentWithDeletions segment (base + UInt64.ofNat k) (UInt32.ofNat k) dv = some built ∧
      Spans built.toList (offsetRows dv base ids k) := by
  have pairs := @filterMap_zipIdx_eq_offsetRows dv base k ids 0
  rw [Nat.add_zero] at pairs
  simp only [decomposeSegmentWithDeletions, iter, Option.bind_eq_bind, Option.bind_some, pairs]
  exact buildChunkFromPairs_spans distinct (nodup_addresses_offsetRows fits)

theorem decomposeByIteration_spans (undeleted : ∀ x, dv.contains x = false) (iter : segment.iter = some ids)
    (lenMatches : segment.len = ids.length) (fits : base.toNat + k + ids.length < 2 ^ 64)
    (distinct : ((offsetRows dv base ids k).map Prod.fst).Nodup) :
    ∃ built, decomposeByIteration segment (base + UInt64.ofNat k) = some built ∧
      Spans built.toList (offsetRows dv base ids k) := by
  rw [decomposeByIteration]
  split
  · -- an empty segment yields no rows
    rename_i empty
    have noIds : ids = [] := List.eq_nil_of_length_eq_zero (lenMatches ▸ empty)
    subst noIds
    exact ⟨none, rfl, Spans.nil⟩
  · simp only [iter, Option.bind_eq_bind, Option.bind_some, map_zipIdx_eq_offsetRows undeleted]
    exact buildChunkFromPairs_spans distinct (nodup_addresses_offsetRows fits)

/-- A range that holds rows maps to the range of their addresses. -/
theorem rangeChunk_holds (span : U64Range) (nonempty : span.start < span.stop)
    (undeleted : ∀ x, dv.contains x = false) (fits : base.toNat + k + span.values.length < 2 ^ 64) :
    IndexChunk.Holds ⟨(span.start, span.stop - 1), .range span,
      .range ⟨base + UInt64.ofNat k, base + UInt64.ofNat k + (span.stop - span.start)⟩⟩
      (offsetRows dv base span.values k) := by
  have ordered := UInt64.le_of_lt nonempty
  have length : span.stop - span.start = UInt64.ofNat span.values.length := by
    rw [U64Range.length_values, ← UInt64.toNat_sub_of_le _ _ ordered, UInt64.ofNat_toNat]
  have start : (base + UInt64.ofNat k).toNat = base.toNat + k := toNat_add_ofNat (by omega)
  have ids : (offsetRows dv base span.values k).map Prod.fst = span.values := by
    rw [offsetRows_of_none_deleted undeleted, List.map_map]
    exact List.zipIdx_map_fst k span.values
  -- the address of the `j`-th row is `j` past the address of the segment's first row
  have addresses : (offsetRows dv base span.values k).map Prod.snd =
      (⟨base + UInt64.ofNat k, base + UInt64.ofNat k + (span.stop - span.start)⟩ : U64Range).values := by
    rw [length, U64Range.values_add _ _ (by omega), offsetRows_of_none_deleted undeleted, List.map_map,
      show (Prod.snd ∘ fun entry : UInt64 × Nat => (entry.1, base + UInt64.ofNat entry.2)) =
        (fun i => base + UInt64.ofNat i) ∘ Prod.snd from rfl,
      ← List.map_map, List.zipIdx_map_snd, List.range'_eq_map_range, List.map_map]
    congr 1
    funext j
    simp only [Function.comp_apply, UInt64.ofNat_add, UInt64.add_assoc]
  have widening : base + UInt64.ofNat k ≤ base + UInt64.ofNat k + (span.stop - span.start) := by
    rw [UInt64.le_iff_toNat_le, length, toNat_add_ofNat (a := base + UInt64.ofNat k) (by omega)]
    omega
  refine ⟨?_, ?_, ?_⟩
  · rw [ids]
    exact U64Segment.represents_range span ordered
  · rw [addresses]
    exact U64Segment.represents_range _ widening
  · rw [ids]
    exact U64Range.bounds_values span nonempty

theorem decomposeSegmentNoDeletions_spans (undeleted : ∀ x, dv.contains x = false) (iter : segment.iter = some ids)
    (lenMatches : segment.len = ids.length) (fits : base.toNat + k + ids.length < 2 ^ 64)
    (distinct : ((offsetRows dv base ids k).map Prod.fst).Nodup) :
    ∃ built, decomposeSegmentNoDeletions segment (base + UInt64.ofNat k) = some built ∧
      Spans built.toList (offsetRows dv base ids k) := by
  cases segment with
  | range span =>
    by_cases nonempty : span.start < span.stop
    · -- the fast path: the range itself, and the range of its addresses
      have values : ids = span.values := (Option.some.inj iter).symm
      subst values
      have notEmpty : span.isEmpty = false := by simp [U64Range.isEmpty, nonempty]
      refine ⟨some _, ?_, Spans.single (rangeChunk_holds span nonempty undeleted fits)⟩
      simp only [decomposeSegmentNoDeletions, notEmpty, Bool.not_false, if_true]
    · have empty : span.isEmpty = true := by simp [U64Range.isEmpty, nonempty]
      simp only [decomposeSegmentNoDeletions, empty, Bool.not_true, Bool.false_eq_true, if_false]
      exact decomposeByIteration_spans undeleted iter lenMatches fits distinct
  | rangeWithHoles => exact decomposeByIteration_spans undeleted iter lenMatches fits distinct
  | rangeWithBitmap => exact decomposeByIteration_spans undeleted iter lenMatches fits distinct
  | sortedArray => exact decomposeByIteration_spans undeleted iter lenMatches fits distinct
  | array => exact decomposeByIteration_spans undeleted iter lenMatches fits distinct

end Segment

/-! ### A whole fragment -/

/-- The row ids of segments whose every `iter` succeeds, one after the other. -/
def segmentIds (segments : List U64Segment) : List UInt64 := segments.flatMap fun segment => segment.iter.getD []

theorem LenMatches.iter_eq {segment : U64Segment} (matching : segment.LenMatches) :
    segment.iter = some (segment.iter.getD []) ∧ segment.len = (segment.iter.getD []).length := by
  unfold U64Segment.LenMatches at matching
  cases found : segment.iter with
  | none => simp [found] at matching
  | some ids =>
    simp only [found, Option.map_some, Option.some.injEq] at matching
    exact ⟨rfl, matching.symm⟩

theorem mapM_iter_eq_segmentIds :
    ∀ {segments : List U64Segment}, (∀ segment ∈ segments, segment.LenMatches) →
      (segments.mapM U64Segment.iter).map List.flatten = some (segmentIds segments)
  | [], _ => rfl
  | segment :: rest, matching => by
    have rested := mapM_iter_eq_segmentIds fun other member => matching other (List.mem_cons_of_mem _ member)
    obtain ⟨others, ran, flat⟩ := Option.map_eq_some_iff.mp rested
    rw [List.mapM_cons, (LenMatches.iter_eq (matching segment List.mem_cons_self)).1, ran]
    simp only [Option.bind_eq_bind, Option.bind_some, Option.pure_def, Option.map_some, List.flatten_cons, flat,
      segmentIds, List.flatMap_cons]

theorem iter_eq_segmentIds {sequence : RowIdSequence} (matching : ∀ segment ∈ sequence.segments, segment.LenMatches) :
    sequence.iter = some (segmentIds sequence.segments) :=
  mapM_iter_eq_segmentIds matching

theorem length_segmentIds {segments : List U64Segment} (matching : ∀ segment ∈ segments, segment.LenMatches) :
    (segmentIds segments).length = (segments.map U64Segment.len).sum := by
  induction segments with
  | nil => rfl
  | cons segment rest ih =>
    simp only [segmentIds, List.flatMap_cons, List.length_append, List.map_cons, List.sum_cons] at ih ⊢
    rw [ih fun other member => matching other (List.mem_cons_of_mem _ member),
      ← (LenMatches.iter_eq (matching segment List.mem_cons_self)).2]

section Segments

variable {dv : DeletionVector} {base : UInt64}

/-- The segment loop: from offset `k` on, the chunks hold the rows of the
remaining segments. -/
theorem decomposeSegments_spans (noDeletions : Bool) (undeleted : noDeletions = true → ∀ x, dv.contains x = false) :
    ∀ (segments : List U64Segment) (k : Nat), (∀ segment ∈ segments, segment.LenMatches) →
      base.toNat + k + (segmentIds segments).length < 2 ^ 64 →
      ((offsetRows dv base (segmentIds segments) k).map Prod.fst).Nodup →
      ∃ chunks, decomposeSegments dv noDeletions segments (base + UInt64.ofNat k) (UInt32.ofNat k) = some chunks ∧
        Spans chunks (offsetRows dv base (segmentIds segments) k)
  | [], _, _, _, _ => ⟨[], rfl, Spans.nil⟩
  | segment :: rest, k, matching, fits, distinct => by
    obtain ⟨iter, lenMatches⟩ := LenMatches.iter_eq (matching segment List.mem_cons_self)
    have ids : segmentIds (segment :: rest) = segment.iter.getD [] ++ segmentIds rest := List.flatMap_cons
    rw [ids, List.length_append] at fits
    rw [ids, offsetRows_append, List.map_append, List.nodup_append] at distinct
    rw [ids, offsetRows_append]
    obtain ⟨chunks, rested, spansLater⟩ := decomposeSegments_spans noDeletions undeleted rest
      (k + (segment.iter.getD []).length) (fun other member => matching other (List.mem_cons_of_mem _ member))
      (by omega) distinct.2.1
    -- the next segment starts `len` rows further, in addresses and in offsets
    have address : base + UInt64.ofNat k + UInt64.ofNat segment.len =
        base + UInt64.ofNat (k + (segment.iter.getD []).length) := by
      rw [lenMatches, UInt64.add_assoc, ← UInt64.ofNat_add]
    have offset : UInt32.ofNat k + UInt32.ofNat segment.len = UInt32.ofNat (k + (segment.iter.getD []).length) := by
      rw [lenMatches, ← UInt32.ofNat_add]
    rw [decomposeSegments]
    cases noDeletions with
    | true =>
      obtain ⟨result, decomposed, spansHere⟩ :=
        decomposeSegmentNoDeletions_spans (undeleted rfl) iter lenMatches (by omega) distinct.1
      refine ⟨result.toList ++ chunks, ?_, spansHere.append spansLater⟩
      simp only [if_true, decomposed, address, offset, rested, Option.bind_eq_bind, Option.bind_some, Option.pure_def]
    | false =>
      obtain ⟨result, decomposed, spansHere⟩ := decomposeSegmentWithDeletions_spans iter (by omega) distinct.1
      refine ⟨result.toList ++ chunks, ?_, spansHere.append spansLater⟩
      simp only [Bool.false_eq_true, if_false, decomposed, address, offset, rested, Option.bind_eq_bind,
        Option.bind_some, Option.pure_def]

end Segments

theorem toNat_firstRow (fragmentId : UInt32) :
    (RowAddress.firstRow fragmentId).raw.toNat = fragmentId.toNat * 2 ^ 32 := by
  rw [RowAddress.firstRow, RowAddress.toNat_newFromParts]
  simp

theorem liveRows_eq {frag : FragmentRowIdIndex} (matching : ∀ segment ∈ frag.rowIdSequence.segments, segment.LenMatches) :
    frag.liveRows = offsetRows frag.deletionVector (RowAddress.firstRow frag.fragmentId).raw
      (segmentIds frag.rowIdSequence.segments) 0 := by
  rw [FragmentRowIdIndex.liveRows, iter_eq_segmentIds matching, Option.map_some, Option.getD_some]

theorem contains_of_isEmpty {dv : DeletionVector} (empty : dv.isEmpty = true) (x : UInt32) : dv.contains x = false := by
  rw [DeletionVector.isEmpty, List.isEmpty_iff] at empty
  rw [DeletionVector.contains, empty]
  rfl

theorem decomposeSequence_spans {frag : FragmentRowIdIndex} (wellFormed : frag.WellFormed) :
    ∃ chunks, decomposeSequence frag = some chunks ∧ Spans chunks frag.liveRows := by
  have fragmentFits := frag.fragmentId.toNat_lt
  have count := length_segmentIds wellFormed.lenMatches
  have total := wellFormed.fits
  have live := liveRows_eq wellFormed.lenMatches
  obtain ⟨chunks, decomposed, spans⟩ := @decomposeSegments_spans frag.deletionVector
    (RowAddress.firstRow frag.fragmentId).raw _ contains_of_isEmpty frag.rowIdSequence.segments 0
    wellFormed.lenMatches (by rw [count, toNat_firstRow]; omega) (live ▸ wellFormed.distinct)
  refine ⟨chunks, ?_, live ▸ spans⟩
  rw [show UInt64.ofNat 0 = 0 from rfl, UInt64.add_zero, show UInt32.ofNat 0 = 0 from rfl] at decomposed
  exact decomposed

theorem decompose_all_spans :
    ∀ {fragments : List FragmentRowIdIndex}, (∀ frag ∈ fragments, frag.WellFormed) →
      ∃ chunks, (fragments.mapM decomposeSequence).map List.flatten = some chunks ∧
        Spans chunks (fragments.flatMap FragmentRowIdIndex.liveRows)
  | [], _ => ⟨[], rfl, Spans.nil⟩
  | frag :: rest, wellFormed => by
    obtain ⟨here, decomposed, spansHere⟩ := decomposeSequence_spans (wellFormed frag List.mem_cons_self)
    obtain ⟨later, rested, spansLater⟩ :=
      decompose_all_spans fun other member => wellFormed other (List.mem_cons_of_mem _ member)
    obtain ⟨others, ran, flat⟩ := Option.map_eq_some_iff.mp rested
    refine ⟨here ++ later, ?_, spansHere.append spansLater⟩
    rw [List.mapM_cons, decomposed, ran]
    simp only [Option.bind_eq_bind, Option.bind_some, Option.pure_def, Option.map_some, List.flatten_cons, flat]

end Lance.RowIds
