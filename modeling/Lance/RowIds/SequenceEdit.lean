import Lance.RowIds.IndexNew
import Lance.RowIds.SegmentEdit
import Lance.RowIds.Sequence

/-! `RowIdSequence::delete` (`rowids.rs`). `find_ids` looks each row id up in
every segment, gathers the offsets found per segment, sorts them, and reads the
row ids back at them, so that each segment's row ids come in their order of
appearance; `delete` then replaces each segment that holds some of them by its
`delete` and copies the others. For distinct row ids to delete, the sequence afterwards
yields the row ids it yielded before less those; a row id given twice is found
twice, and `U64Segment::delete`, which only ever peeks at the next row id to
delete, then stalls on the second copy and keeps every later row id of that
segment. -/

namespace Lance.RowIds

open Lance.Library

namespace RowIdSequence

/-- One segment's look at one row id in `find_ids`: the row id's offset is
recorded when the segment's range covers the row id and the segment holds it. -/
def findInSegment (segment : U64Segment) (offsets : List Nat) (rowId : UInt64) : Option (List Nat) := do
  match ← segment.valueRange with
  | some (lo, hi) =>
    if lo ≤ rowId ∧ rowId ≤ hi then
      match ← segment.position rowId with
      | some offset => pure (offsets ++ [offset])
      | none => pure offsets
    else pure offsets
  | none => pure offsets

/-- One row id of `find_ids`: each segment in turn looks at it. The cycle over
the segments makes one full turn per row id, so each row id starts at the first
segment. -/
def findIdsStep (segments : List U64Segment) (segmentOffsets : List (List Nat)) (rowId : UInt64) :
    Option (List (List Nat)) :=
  (segments.zip segmentOffsets).mapM fun (segment, offsets) => findInSegment segment offsets rowId

/-- The ranges that the segments with offsets found take among the row ids
`find_ids` returns, each with the segment's index. -/
def segmentRanges : List (List Nat × Nat) → Nat → List (Nat × Nat × Nat)
  | [], _ => []
  | (offsets, segmentIdx) :: rest, offset =>
    if offsets.isEmpty then segmentRanges rest offset
    else (segmentIdx, offset, offset + offsets.length) :: segmentRanges rest (offset + offsets.length)

/-- `find_ids`: the row ids found, segment by segment and in order of appearance
within each, with the range each segment takes among them. -/
def findIds (sequence : RowIdSequence) (rowIds : List UInt64) : Option (List UInt64 × List (Nat × Nat × Nat)) := do
  let found ← rowIds.foldlM (findIdsStep sequence.segments) (List.replicate sequence.segments.length [])
  let sorted := found.map fun offsets => offsets.mergeSort fun a b => decide (a ≤ b)
  let ids ← (sequence.segments.zip sorted).mapM fun (segment, offsets) =>
    offsets.mapM fun offset => (segment.get offset).join
  pure (ids.flatten, segmentRanges sorted.zipIdx 0)

/-- The loop of `delete` over the segments with row ids to delete: the segments
before the next one are copied, and that one is replaced by its `delete`. -/
def deleteLoop (oldLen : Nat) (rowIds : List UInt64) :
    List (Nat × Nat × Nat) → List U64Segment → List U64Segment → Option (List U64Segment)
  | [], kept, remaining => some (kept ++ remaining)
  | (segmentIdx, start, stop) :: offsets, kept, remaining => do
    let segmentsHandled ← debugSub oldLen remaining.length
    let segmentsToAdd ← debugSub segmentIdx segmentsHandled
    -- `remaining_segments[..segments_to_add]` panics past the end
    if remaining.length < segmentsToAdd then none
    else
      match remaining.drop segmentsToAdd with
      -- `split_first().unwrap()`
      | [] => none
      | segment :: rest =>
        -- `row_ids[range]` panics on a range past the end or one that decreases
        if rowIds.length < stop ∨ stop < start then none
        else do
          let deleted ← segment.delete ((rowIds.drop start).take (stop - start))
          deleteLoop oldLen rowIds offsets (kept ++ remaining.take segmentsToAdd ++ [deleted]) rest

/-- `delete`: the row ids removed from the segments that hold them. -/
def delete (sequence : RowIdSequence) (rowIds : List UInt64) : Option RowIdSequence := do
  let (ids, offsets) ← sequence.findIds rowIds
  let segments ← deleteLoop sequence.segments.length ids offsets [] sequence.segments
  pure ⟨segments⟩

/-! ### The row ids `find_ids` finds -/

section Found

open U64Segment

variable {segments : List U64Segment} {lists : List (List UInt64)}

/-- The offsets `find_ids` gathers in a segment that holds `vs`: those of the
row ids it holds, in the order the row ids come. -/
def offsetsIn (rowIds vs : List UInt64) : List Nat := (rowIds.filter (· ∈ vs)).map vs.idxOf

theorem findInSegment_eq {segment : U64Segment} {vs : List UInt64} (represents : segment.Represents vs)
    (offsets : List Nat) (rowId : UInt64) :
    findInSegment segment offsets rowId = some (if rowId ∈ vs then offsets ++ [vs.idxOf rowId] else offsets) := by
  rcases eq_or_ne vs [] with rfl | nonempty
  · simp [findInSegment, represents.valueRange_nil rfl]
  obtain ⟨lo, hi, bounds⟩ := EncodedU64Array.bounds_of_ne_nil nonempty
  by_cases member : rowId ∈ vs
  · -- the row id lies within the bounds, at its first index
    have found := represents.position_getElem _ (List.idxOf_lt_length_of_mem member)
    rw [List.getElem_idxOf] at found
    simp [findInSegment, represents.valueRange_bounds lo hi bounds, member, bounds.low rowId member,
      bounds.high rowId member, found]
  · have missing := represents.position_not_mem rowId member
    simp only [findInSegment, represents.valueRange_bounds lo hi bounds, member, missing, if_false,
      Option.bind_eq_bind, Option.bind_some]
    split <;> rfl

theorem offsetsIn_append_singleton (seen : List UInt64) (rowId : UInt64) (vs : List UInt64) :
    offsetsIn (seen ++ [rowId]) vs =
      if rowId ∈ vs then offsetsIn seen vs ++ [vs.idxOf rowId] else offsetsIn seen vs := by
  by_cases member : rowId ∈ vs <;> simp [offsetsIn, List.filter_append, member]

theorem findIdsStep_offsetsIn (represents : List.Forall₂ Represents segments lists) (seen : List UInt64)
    (rowId : UInt64) :
    findIdsStep segments (lists.map (offsetsIn seen)) rowId = some (lists.map (offsetsIn (seen ++ [rowId]))) := by
  induction represents with
  | nil => rfl
  | cons head _ ih =>
    unfold findIdsStep at ih ⊢
    simp [findInSegment_eq head, ih, offsetsIn_append_singleton]

theorem foldlM_findIdsStep (represents : List.Forall₂ Represents segments lists) :
    ∀ (rowIds seen : List UInt64), rowIds.foldlM (findIdsStep segments) (lists.map (offsetsIn seen)) =
      some (lists.map (offsetsIn (seen ++ rowIds)))
  | [], seen => by simp
  | rowId :: rest, seen => by
    rw [List.foldlM_cons, findIdsStep_offsetsIn represents, Option.bind_eq_bind, Option.bind_some,
      foldlM_findIdsStep represents rest (seen ++ [rowId]), List.append_assoc, List.singleton_append]

/-- Sorted, the offsets of distinct row ids are the positions that hold them. -/
theorem mergeSort_offsetsIn {rowIds vs : List UInt64} (distinct : vs.Nodup) (once : rowIds.Nodup) :
    (offsetsIn rowIds vs).mergeSort (fun a b => decide (a ≤ b)) =
      (List.range vs.length).filter fun i => decide (vs.getD i 0 ∈ rowIds) := by
  have sortedOrder := pairwise_mergeSort_key id (offsetsIn rowIds vs)
  have positionsOrder : ((List.range vs.length).filter fun i => decide (vs.getD i 0 ∈ rowIds)).Pairwise (· ≤ ·) :=
    (List.pairwise_lt_range.imp Nat.le_of_lt).sublist List.filter_sublist
  have offsetsDistinct : (offsetsIn rowIds vs).Nodup := by
    refine List.Nodup.map_on (fun x xMember y yMember same => ?_) (once.filter _)
    have xIn := of_decide_eq_true (List.mem_filter.mp xMember).2
    have yIn := of_decide_eq_true (List.mem_filter.mp yMember).2
    rw [← List.getElem_idxOf (List.idxOf_lt_length_of_mem xIn),
      ← List.getElem_idxOf (List.idxOf_lt_length_of_mem yIn)]
    simp only [same]
  -- both hold exactly the positions of `vs` whose row ids are among `rowIds`
  have members : ∀ i, i ∈ offsetsIn rowIds vs ↔ i ∈ (List.range vs.length).filter
      fun i => decide (vs.getD i 0 ∈ rowIds) := by
    intro i
    simp only [offsetsIn, List.mem_map, List.mem_filter, decide_eq_true_eq, List.mem_range]
    constructor
    · rintro ⟨rowId, ⟨given, held⟩, rfl⟩
      have inside := List.idxOf_lt_length_of_mem held
      exact ⟨inside, by rw [List.getD_eq_getElem _ _ inside, List.getElem_idxOf]; exact given⟩
    · rintro ⟨inside, given⟩
      rw [List.getD_eq_getElem _ _ inside] at given
      exact ⟨vs[i], ⟨given, List.getElem_mem inside⟩, distinct.idxOf_getElem i inside⟩
  have shuffled := (List.mergeSort_perm (offsetsIn rowIds vs) fun a b => decide (a ≤ b)).trans
    ((List.perm_ext_iff_of_nodup offsetsDistinct ((List.nodup_range).filter _)).mpr members)
  exact @List.Perm.eq_of_pairwise _ (fun a b : Nat => a ≤ b) _ _ (fun _ _ _ _ => Nat.le_antisymm)
    sortedOrder positionsOrder shuffled

theorem map_getD_range (vs : List UInt64) : (List.range vs.length).map (fun i => vs.getD i 0) = vs :=
  List.ext_getElem (by simp) fun i _ inside => by
    rw [List.getElem_map, List.getElem_range, List.getD_eq_getElem _ _ inside]

theorem length_mergeSort_offsetsIn {rowIds vs : List UInt64} (distinct : vs.Nodup) (once : rowIds.Nodup) :
    ((offsetsIn rowIds vs).mergeSort fun a b => decide (a ≤ b)).length = (vs.filter (· ∈ rowIds)).length := by
  rw [mergeSort_offsetsIn distinct once]
  conv => rhs; rw [← map_getD_range vs, List.filter_map, List.length_map]
  rfl

theorem mapM_get_filter_range {segment : U64Segment} {vs : List UInt64} (represents : segment.Represents vs)
    (distinct : vs.Nodup) (keep : UInt64 → Bool) :
    ((List.range vs.length).filter fun i => keep (vs.getD i 0)).mapM (fun offset => (segment.get offset).join) =
      some (vs.filter keep) := by
  have reads : ∀ i ∈ (List.range vs.length).filter (fun i => keep (vs.getD i 0)),
      (segment.get i).join = some (vs.getD i 0) := by
    intro i member
    have inside := List.mem_range.mp (List.mem_filter.mp member).1
    have small : i < 2 ^ 64 := Nat.lt_of_lt_of_le inside (length_le_of_nodup distinct)
    rw [represents.get_eq i small, Option.join_some, List.getElem?_eq_getElem inside, List.getD_eq_getElem _ _ inside]
  rw [mapM_eq_some_filterMap fun i member => by rw [reads i member]; rfl,
    List.filterMap_congr (g := some ∘ fun i => vs.getD i 0) reads, List.filterMap_eq_map]
  conv => rhs; rw [← map_getD_range vs, List.filter_map]
  rfl

theorem mapM_read_sorted (represents : List.Forall₂ Represents segments lists) (distinct : ∀ vs ∈ lists, vs.Nodup)
    {rowIds : List UInt64} (once : rowIds.Nodup) :
    (segments.zip (lists.map fun vs => (offsetsIn rowIds vs).mergeSort fun a b => decide (a ≤ b))).mapM
        (fun x => x.2.mapM fun offset => (x.1.get offset).join) =
      some (lists.map (·.filter (· ∈ rowIds))) := by
  induction represents with
  | nil => rfl
  | @cons segment vs _ _ head _ ih =>
    have vsDistinct := distinct vs List.mem_cons_self
    have read := mapM_get_filter_range head vsDistinct fun v => decide (v ∈ rowIds)
    rw [List.map_cons, List.zip_cons_cons, List.mapM_cons, mergeSort_offsetsIn vsDistinct once, read,
      ih fun other member => distinct other (List.mem_cons_of_mem _ member)]
    rfl

/-- `find_ids` of distinct row ids: the row ids each segment holds, in their
order there, segment after segment, with the ranges of the segments' offsets. -/
theorem findIds_eq {sequence : RowIdSequence} (represents : List.Forall₂ Represents sequence.segments lists)
    (distinct : ∀ vs ∈ lists, vs.Nodup) {rowIds : List UInt64} (once : rowIds.Nodup) :
    sequence.findIds rowIds = some ((lists.map (·.filter (· ∈ rowIds))).flatten,
      segmentRanges (lists.map fun vs => (offsetsIn rowIds vs).mergeSort fun a b => decide (a ≤ b)).zipIdx 0) := by
  have start : List.replicate sequence.segments.length [] = lists.map (offsetsIn []) := by
    have nothing : offsetsIn [] = fun _ => [] := rfl
    rw [nothing, List.map_const', represents.length_eq]
  unfold findIds
  rw [start, foldlM_findIdsStep represents, List.nil_append]
  simp only [Option.bind_eq_bind, Option.bind_some, List.map_map, Function.comp_def]
  rw [mapM_read_sorted represents distinct once]
  rfl

end Found

/-! ### The segments `delete` rebuilds -/

section Rebuilt

open U64Segment

variable {rowIds : List UInt64}

/-- The run lemma of `delete`'s loop. The segments still to come follow some
skipped ones, which hold no row id to delete and are copied when the next
segment with row ids to delete is replaced; every segment ends up holding its
row ids less those deleted. -/
theorem deleteLoop_eq (oldLen : Nat) (ids : List UInt64) :
    ∀ {segments : List U64Segment} {lists : List (List UInt64)} {sorted : List (List Nat)},
      List.Forall₂ Represents segments lists → (∀ vs ∈ lists, vs.Nodup) →
      List.Forall₂ (fun offsets vs => offsets.length = (vs.filter (· ∈ rowIds)).length) sorted lists →
      ∀ (skipped : List U64Segment) (skippedLists : List (List UInt64)) (kept : List U64Segment) (first start : Nat),
      List.Forall₂ Represents skipped skippedLists → (∀ vs ∈ skippedLists, vs.filter (· ∉ rowIds) = vs) →
      skipped.length ≤ first → oldLen = first + segments.length →
      ids.drop start = (lists.map (·.filter (· ∈ rowIds))).flatten →
      ∃ out, deleteLoop oldLen ids (segmentRanges (sorted.zipIdx first) start) kept (skipped ++ segments) =
        some (kept ++ out) ∧ List.Forall₂ Represents out ((skippedLists ++ lists).map (·.filter (· ∉ rowIds)))
  | [], [], [], .nil, _, .nil, skipped, skippedLists, kept, _, _, skippedRepresent, untouched, _, _, _ => by
    refine ⟨skipped, by simp [segmentRanges, deleteLoop], ?_⟩
    rwa [List.append_nil, List.map_congr_left untouched, List.map_id']
  | segment :: segments, vs :: lists, offsets :: sorted, .cons head represents, distinct, .cons sized counted,
      skipped, skippedLists, kept, first, start, skippedRepresent, untouched, before, total, placed => by
    have vsDistinct := distinct vs List.mem_cons_self
    have restDistinct := fun other member => distinct other (List.mem_cons_of_mem vs member)
    rw [List.length_cons] at total
    rw [List.zipIdx_cons, segmentRanges]
    split
    · -- no row id to delete here: the segment is skipped
      rename_i none_here
      have nothing : vs.filter (· ∈ rowIds) = [] := by
        rw [← List.length_eq_zero_iff, ← sized]
        exact List.isEmpty_iff_length_eq_zero.mp none_here
      have same : vs.filter (· ∉ rowIds) = vs := by
        rw [List.filter_eq_self]
        intro v member
        have absent : v ∉ vs.filter (· ∈ rowIds) := by rw [nothing]; exact List.not_mem_nil
        simpa [member] using absent
      obtain ⟨out, ran, result⟩ := deleteLoop_eq oldLen ids represents restDistinct counted (skipped ++ [segment])
        (skippedLists ++ [vs]) kept (first + 1) start (List.rel_append skippedRepresent (.cons head .nil))
        (fun other member => by
          rcases List.mem_append.mp member with old | here
          · exact untouched other old
          · rw [List.mem_singleton.mp here]; exact same)
        (by simpa using before) (by omega)
        (by simpa [nothing] using placed)
      refine ⟨out, by simpa using ran, by simpa using result⟩
    · -- the segment is replaced by its `delete`, after the skipped ones are copied
      rename_i some_here
      have drops : ids.drop start = vs.filter (· ∈ rowIds) ++ (lists.map (·.filter (· ∈ rowIds))).flatten := by
        simpa using placed
      have fits : start + offsets.length ≤ ids.length := by
        have lengths := congrArg List.length drops
        have found : 0 < offsets.length := List.length_pos_iff.mpr fun empty => some_here (by simp [empty])
        simp only [List.length_drop, List.length_append] at lengths
        omega
      have slice : (ids.drop start).take (start + offsets.length - start) = vs.filter (· ∈ rowIds) := by
        rw [Nat.add_sub_cancel_left, drops, sized, List.take_left' rfl]
      obtain ⟨deleted, built, represented⟩ := delete_represents head vsDistinct (List.filter_sublist (l := vs))
      have left : vs.filter (· ∉ vs.filter (· ∈ rowIds)) = vs.filter (· ∉ rowIds) :=
        List.filter_congr fun v member => by simp [member]
      rw [left] at represented
      obtain ⟨out, ran, result⟩ := deleteLoop_eq oldLen ids represents restDistinct counted [] [] (kept ++ skipped ++ [deleted])
        (first + 1) (start + offsets.length) .nil (by simp) (Nat.zero_le _) (by omega)
        (by rw [← List.drop_drop, drops, sized, List.drop_left' rfl])
      refine ⟨skipped ++ deleted :: out, ?_, ?_⟩
      · -- the segments handled are those before the skipped ones, which are copied
        have handled : debugSub oldLen (skipped.length + (segments.length + 1)) = some (first - skipped.length) := by
          rw [debugSub_of_le (by omega)]
          congr 1
          omega
        have toAdd : debugSub first (first - skipped.length) = some skipped.length := by
          rw [debugSub_of_le (Nat.sub_le _ _), Nat.sub_sub_self before]
        simp only [deleteLoop, List.length_append, List.length_cons, handled, toAdd, List.drop_left' rfl,
          List.take_left' rfl, show ¬ (skipped.length + (segments.length + 1) < skipped.length) by omega, if_false,
          show ¬ (ids.length < start + offsets.length ∨ start + offsets.length < start) by omega, slice, built,
          Option.bind_eq_bind, Option.bind_some]
        simpa using ran
      · rw [List.map_append, List.map_cons]
        refine List.rel_append ?_ (.cons represented (by simpa using result))
        rwa [List.map_congr_left untouched, List.map_id']

theorem iter_of_represents : ∀ {segments : List U64Segment} {lists : List (List UInt64)},
    List.Forall₂ U64Segment.Represents segments lists → (⟨segments⟩ : RowIdSequence).iter = some lists.flatten
  | [], [], .nil => rfl
  | _ :: _, _ :: _, .cons head rest => by
    obtain ⟨iters, ran, flat⟩ := Option.map_eq_some_iff.mp (iter_of_represents rest)
    simp only [RowIdSequence.iter, List.mapM_cons, head.iter_eq, ran]
    simp [flat]

/-- `delete` of distinct row ids from a sequence of segments that hold distinct
row ids: the sequence yields what it yielded before, less those row ids, in
the same order. -/
theorem delete_removes_each_rowId {sequence : RowIdSequence} {lists : List (List UInt64)}
    (represents : List.Forall₂ U64Segment.Represents sequence.segments lists) (distinct : lists.flatten.Nodup)
    {rowIds : List UInt64} (once : rowIds.Nodup) :
    sequence.iter = some lists.flatten ∧
      ∃ deleted, sequence.delete rowIds = some deleted ∧ deleted.iter = some (lists.flatten.filter (· ∉ rowIds)) := by
  have each : ∀ vs ∈ lists, vs.Nodup := (List.nodup_flatten.mp distinct).1
  have counted : List.Forall₂ (fun offsets vs => offsets.length = (vs.filter (· ∈ rowIds)).length)
      (lists.map fun vs => (offsetsIn rowIds vs).mergeSort fun a b => decide (a ≤ b)) lists :=
    List.forall₂_map_left_iff.mpr (List.forall₂_same.mpr fun vs member => length_mergeSort_offsetsIn (each vs member) once)
  obtain ⟨out, ran, result⟩ := deleteLoop_eq sequence.segments.length (lists.map (·.filter (· ∈ rowIds))).flatten
    represents each counted [] [] [] 0 0 .nil (by simp) (Nat.le_refl 0) (by simp) (by simp)
  have whole : sequence = ⟨sequence.segments⟩ := rfl
  refine ⟨whole ▸ iter_of_represents represents, ⟨out⟩, ?_, ?_⟩
  · simp only [List.nil_append] at ran
    simp [delete, findIds_eq represents each once, ran]
  · rw [iter_of_represents result, List.filter_flatten]
    simp

def twoRanges : RowIdSequence := ⟨[.range ⟨0, 10⟩, .range ⟨12, 20⟩]⟩

theorem delete_removes_each_rowId_at_twoRanges :
    ∃ lists, List.Forall₂ U64Segment.Represents twoRanges.segments lists ∧ lists.flatten.Nodup ∧
      ([13, 0, 9, 11, 12] : List UInt64).Nodup ∧ (twoRanges.iter = some lists.flatten ∧ ∃ deleted,
        twoRanges.delete [13, 0, 9, 11, 12] = some deleted ∧
          deleted.iter = some (lists.flatten.filter (· ∉ [13, 0, 9, 11, 12]))) := by
  have represents : List.Forall₂ U64Segment.Represents twoRanges.segments
      [(⟨0, 10⟩ : U64Range).values, (⟨12, 20⟩ : U64Range).values] :=
    .cons (U64Segment.represents_range _ (by decide)) (.cons (U64Segment.represents_range _ (by decide)) .nil)
  have distinct : [(⟨0, 10⟩ : U64Range).values, (⟨12, 20⟩ : U64Range).values].flatten.Nodup := by decide
  have once : ([13, 0, 9, 11, 12] : List UInt64).Nodup := by decide
  exact ⟨_, represents, distinct, once, delete_removes_each_rowId represents distinct once⟩

/-- A row id given twice stalls the segment's filter on the second copy: the
row id 5, also given, is not deleted. -/
theorem delete_keeps_rowIds_after_repeat :
    ∃ deleted, RowIdSequence.delete ⟨[.range ⟨0, 10⟩]⟩ [3, 3, 5] = some deleted ∧
      deleted.iter = some [0, 1, 2, 4, 5, 6, 7, 8, 9] := by
  have sorted : [3, 3, 5].mergeSort (fun a b => decide (a ≤ b)) = [3, 3, 5] := List.mergeSort_of_pairwise (by decide)
  have found : (⟨[.range ⟨0, 10⟩]⟩ : RowIdSequence).findIds [3, 3, 5] = some ([3, 3, 5], [(0, 0, 3)]) := by
    have looked : [3, 3, 5].foldlM (findIdsStep [.range ⟨0, 10⟩]) (List.replicate 1 []) = some [[3, 3, 5]] := by
      decide
    simp only [findIds, List.length_singleton, looked, Option.bind_eq_bind, Option.bind_some, List.map_cons,
      List.map_nil, sorted]
    rfl
  refine ⟨⟨[.rangeWithBitmap ⟨0, 10⟩ ⟨[247, 3], 10⟩]⟩, ?_, by decide⟩
  simp only [delete, found, Option.bind_eq_bind, Option.bind_some]
  rfl

end Rebuilt

/-! ### `mask` -/

/-- The inner loop of `mask`: the positions below `cutoff`, taken from the
front, made local to the segment by subtracting `offset`. -/
def takeLocal (cutoff offset : Nat) : List UInt32 → Option (List UInt32 × List UInt32)
  | [] => some ([], [])
  | position :: rest =>
    if position.toNat ≥ cutoff then some ([], position :: rest)
    else do
      let here ← debugSub position.toNat offset
      let (taken, left) ← takeLocal cutoff offset rest
      pure (UInt32.ofNat here :: taken, left)

/-- The loop of `mask` over the segments. `offset` and `cutoff` are `u32`
counts of the rows before and up to the end of the segment, whose length is cast
to `u32` with `as`. -/
def maskLoop : List U64Segment → List UInt32 → Nat → Option (List U64Segment)
  | [], _, _ => some []
  | segment :: rest, positions, offset => do
    let cutoff ← debugAdd 32 offset (segment.len % 2 ^ 32)
    let (localPositions, left) ← takeLocal cutoff offset positions
    let masked ← if localPositions.isEmpty then some segment else segment.mask localPositions
    let later ← maskLoop rest left cutoff
    pure (masked :: later)

/-- `mask`: delete row ids by position, then drop the segments left empty. -/
def mask (sequence : RowIdSequence) (positions : List UInt32) : Option RowIdSequence := do
  let segments ← maskLoop sequence.segments positions 0
  pure ⟨segments.filter fun segment => !(segment.len == 0)⟩

section Masked

open U64Segment

/-- Against increasing positions, none of those below the cutoff before the
offset, the inner loop takes the positions below the cutoff and leaves the rest. -/
theorem takeLocal_eq (cutoff offset : Nat) : ∀ {positions : List UInt32}, positions.Pairwise (· < ·) →
    (∀ p ∈ positions, p.toNat < cutoff → offset ≤ p.toNat) →
    takeLocal cutoff offset positions = some
      ((positions.filter fun p => p.toNat < cutoff).map (fun p => UInt32.ofNat (p.toNat - offset)),
        positions.filter fun p => cutoff ≤ p.toNat)
  | [], _, _ => rfl
  | position :: rest, increasing, above => by
    obtain ⟨after, restIncreasing⟩ := List.pairwise_cons.mp increasing
    rw [takeLocal]
    split
    · -- the first position is past the segment, and so are those after it
      rename_i past
      have later : ∀ p ∈ rest, cutoff ≤ p.toNat := fun p member => by
        have := UInt32.lt_iff_toNat_lt.mp (after p member)
        omega
      rw [List.filter_cons_of_neg (by simpa using past), List.filter_cons_of_pos (by simpa using past),
        List.filter_eq_nil_iff.mpr fun p member => by simpa using later p member,
        List.filter_eq_self.mpr fun p member => by simpa using later p member]
      rfl
    · rename_i before
      have here : position.toNat < cutoff := by omega
      rw [debugSub_of_le (above position List.mem_cons_self here),
        takeLocal_eq cutoff offset restIncreasing fun p member => above p (List.mem_cons_of_mem _ member),
        List.filter_cons_of_pos (by simpa using here), List.filter_cons_of_neg (by simpa using here)]
      rfl

theorem toNat_localPositions (offset : Nat) (positions : List UInt32) :
    (positions.map fun p => UInt32.ofNat (p.toNat - offset)).map UInt32.toNat =
      positions.map fun p => p.toNat - offset := by
  rw [List.map_map]
  refine List.map_congr_left fun p _ => ?_
  rw [Function.comp_apply, UInt32.toNat_ofNat']
  exact Nat.mod_eq_of_lt (Nat.lt_of_le_of_lt (Nat.sub_le _ _) p.toNat_lt)

/-- The run lemma of `mask`'s loop: each segment is masked at the positions
that fall in it, so that the segments together hold the row ids at the other
positions. -/
theorem maskLoop_eq : ∀ {segments : List U64Segment} {lists : List (List UInt64)},
    List.Forall₂ Represents segments lists →
    List.Forall₂ (fun segment vs => segment.sortedVariant = true → vs.Pairwise (· < ·)) segments lists →
    (∀ vs ∈ lists, vs.Nodup) →
    ∀ (positions : List UInt32) (offset : Nat), offset + lists.flatten.length < 2 ^ 32 →
      positions.Pairwise (· < ·) →
      (∀ p ∈ positions, offset ≤ p.toNat ∧ p.toNat < offset + lists.flatten.length) →
      ∃ out outLists, maskLoop segments positions offset = some out ∧ List.Forall₂ Represents out outLists ∧
        outLists.flatten = keepAt (positions.map UInt32.toNat) offset lists.flatten
  | [], [], .nil, _, _, positions, offset, _, _, _ => ⟨[], [], rfl, .nil, by simp⟩
  | segment :: segments, vs :: lists, .cons head represents, .cons headOrdered ordered, distinct,
      positions, offset, fits, increasing, inside => by
    rw [List.flatten_cons, List.length_append] at fits inside
    have short : vs.length < 2 ^ 32 := by omega
    have cutoffEq : debugAdd 32 offset (segment.len % 2 ^ 32) = some (offset + vs.length) := by
      rw [head.len_eq, Nat.mod_eq_of_lt short, debugAdd_of_lt (by omega)]
    have taken := takeLocal_eq (offset + vs.length) offset increasing
      fun p member _ => (inside p member).1
    set here := positions.filter fun p => p.toNat < offset + vs.length with hereEq
    set left := positions.filter fun p => offset + vs.length ≤ p.toNat with leftEq
    have localIncreasing : (here.map fun p => UInt32.ofNat (p.toNat - offset)).Pairwise (· < ·) := by
      refine List.pairwise_map.mpr ((increasing.filter _).imp_of_mem fun {a b} aIn bIn before => ?_)
      have aAbove := (inside a (List.mem_filter.mp aIn).1).1
      rw [UInt32.lt_iff_toNat_lt, UInt32.toNat_ofNat', UInt32.toNat_ofNat',
        Nat.mod_eq_of_lt (Nat.lt_of_le_of_lt (Nat.sub_le _ _) a.toNat_lt),
        Nat.mod_eq_of_lt (Nat.lt_of_le_of_lt (Nat.sub_le _ _) b.toNat_lt)]
      have := UInt32.lt_iff_toNat_lt.mp before
      omega
    have localInside : ∀ q ∈ here.map fun p => UInt32.ofNat (p.toNat - offset), q.toNat < vs.length := by
      intro q member
      obtain ⟨p, pIn, rfl⟩ := List.mem_map.mp member
      have below := of_decide_eq_true (List.mem_filter.mp pIn).2
      have above := (inside p (List.mem_filter.mp pIn).1).1
      rw [UInt32.toNat_ofNat', Nat.mod_eq_of_lt (Nat.lt_of_le_of_lt (Nat.sub_le _ _) p.toNat_lt)]
      omega
    obtain ⟨masked, maskedEq, maskedRepresents⟩ :=
      mask_represents head (distinct vs List.mem_cons_self) headOrdered short.le localIncreasing localInside
    obtain ⟨out, outLists, ran, outRepresent, flat⟩ := maskLoop_eq represents ordered
      (fun other member => distinct other (List.mem_cons_of_mem vs member)) left (offset + vs.length) (by omega)
      (increasing.filter _) fun p member => by
        have bounds := inside p (List.mem_filter.mp member).1
        have atLeast := of_decide_eq_true (List.mem_filter.mp member).2
        omega
    refine ⟨masked :: out, _ :: outLists, ?_, .cons maskedRepresents outRepresent, ?_⟩
    · simp only [maskLoop, cutoffEq, taken, Option.bind_eq_bind, Option.bind_some]
      split
      · -- no position falls in this segment, which is kept as it is
        rename_i empty
        rw [List.isEmpty_iff.mp empty, mask_nil, Option.some.injEq] at maskedEq
        rw [ran, maskedEq]
        rfl
      · rw [maskedEq, ran]
        rfl
    · -- the segment keeps what falls in its window, the later ones what falls after it
      rw [List.flatten_cons, List.flatten_cons, flat, keepAt_append, toNat_localPositions]
      congr 1
      · refine keepAt_congr fun i small => ?_
        simp only [List.mem_map, List.mem_filter, decide_eq_true_eq, hereEq]
        constructor
        · rintro ⟨p, ⟨member, _⟩, same⟩
          exact ⟨p, member, by have := (inside p member).1; omega⟩
        · rintro ⟨p, member, same⟩
          exact ⟨p, ⟨member, by omega⟩, by omega⟩
      · refine keepAt_congr fun i _ => ?_
        simp only [List.mem_map, List.mem_filter, decide_eq_true_eq, leftEq]
        constructor
        · rintro ⟨p, ⟨member, _⟩, same⟩
          exact ⟨p, member, same⟩
        · rintro ⟨p, member, same⟩
          exact ⟨p, ⟨member, by omega⟩, same⟩

theorem represents_filter_len : ∀ {segments : List U64Segment} {lists : List (List UInt64)},
    List.Forall₂ Represents segments lists →
    List.Forall₂ Represents (segments.filter fun segment => !(segment.len == 0)) (lists.filter fun vs => !vs.isEmpty)
  | [], [], .nil => .nil
  | segment :: _, vs :: _, .cons head rest => by
    rw [List.filter_cons, List.filter_cons, head.len_eq]
    cases vs with
    | nil => simpa using represents_filter_len rest
    | cons _ _ => simpa using List.Forall₂.cons head (represents_filter_len rest)

theorem len_of_represents : ∀ {segments : List U64Segment} {lists : List (List UInt64)},
    List.Forall₂ Represents segments lists → (⟨segments⟩ : RowIdSequence).len = lists.flatten.length
  | [], [], .nil => rfl
  | _ :: _, _ :: _, .cons head rest => by
    have later := len_of_represents rest
    simp only [len, List.map_cons, List.sum_cons, List.flatten_cons, List.length_append] at later ⊢
    rw [head.len_eq, later]

/-- `mask` of increasing positions, each below the sequence's length, on a
sequence of fewer than `u32::MAX` rows whose segments hold distinct row ids, each
sorted where its variant says so: the sequence yields the row ids at the other
positions, in order, is shorter by the number of positions, and keeps no empty
segment. -/
theorem mask_removes_positions {sequence : RowIdSequence} {lists : List (List UInt64)}
    (represents : List.Forall₂ Represents sequence.segments lists)
    (ordered : List.Forall₂ (fun segment vs => segment.sortedVariant = true → vs.Pairwise (· < ·))
      sequence.segments lists)
    (distinct : lists.flatten.Nodup) (short : sequence.len < 2 ^ 32)
    {positions : List UInt32} (increasing : positions.Pairwise (· < ·))
    (inside : ∀ p ∈ positions, p.toNat < sequence.len) :
    sequence.iter = some lists.flatten ∧
      ∃ masked, sequence.mask positions = some masked ∧
        masked.iter = some (keepAt (positions.map UInt32.toNat) 0 lists.flatten) ∧
        masked.len + positions.length = sequence.len ∧ ∀ segment ∈ masked.segments, segment.len ≠ 0 := by
  have whole : sequence = ⟨sequence.segments⟩ := rfl
  have total : sequence.len = lists.flatten.length := whole ▸ len_of_represents represents
  obtain ⟨out, outLists, ran, outRepresent, flat⟩ := maskLoop_eq represents ordered
    (List.nodup_flatten.mp distinct).1 positions 0 (by omega) increasing
    fun p member => ⟨Nat.zero_le _, by have := inside p member; omega⟩
  have kept := represents_filter_len outRepresent
  have numbers : (positions.map UInt32.toNat).Pairwise (· < ·) :=
    List.pairwise_map.mpr (increasing.imp UInt32.lt_iff_toNat_lt.mp)
  have counted : (keepAt (positions.map UInt32.toNat) 0 lists.flatten).length + (positions.map UInt32.toNat).length =
      lists.flatten.length :=
    length_keepAt numbers.nodup (by simpa [← total] using inside)
  refine ⟨whole ▸ iter_of_represents represents, ⟨out.filter fun segment => !(segment.len == 0)⟩,
    by simp [mask, ran], ?_, ?_, ?_⟩
  · rw [iter_of_represents kept, List.flatten_filter_not_isEmpty, flat]
  · rw [len_of_represents kept, List.flatten_filter_not_isEmpty, flat, total]
    simpa using counted
  · intro segment member
    simpa using (List.mem_filter.mp member).2

theorem mask_removes_positions_at_twoRanges :
    ∃ lists, List.Forall₂ Represents twoRanges.segments lists ∧
      List.Forall₂ (fun segment vs => segment.sortedVariant = true → vs.Pairwise (· < ·)) twoRanges.segments lists ∧
      lists.flatten.Nodup ∧ twoRanges.len < 2 ^ 32 ∧ ([0, 3, 9, 10, 17] : List UInt32).Pairwise (· < ·) ∧
      (∀ p ∈ ([0, 3, 9, 10, 17] : List UInt32), p.toNat < twoRanges.len) ∧
      (twoRanges.iter = some lists.flatten ∧ ∃ masked, twoRanges.mask [0, 3, 9, 10, 17] = some masked ∧
        masked.iter = some (keepAt (([0, 3, 9, 10, 17] : List UInt32).map UInt32.toNat) 0 lists.flatten) ∧
        masked.len + ([0, 3, 9, 10, 17] : List UInt32).length = twoRanges.len ∧
        ∀ segment ∈ masked.segments, segment.len ≠ 0) := by
  have represents : List.Forall₂ Represents twoRanges.segments
      [(⟨0, 10⟩ : U64Range).values, (⟨12, 20⟩ : U64Range).values] :=
    .cons (represents_range _ (by decide)) (.cons (represents_range _ (by decide)) .nil)
  have ordered : List.Forall₂ (fun segment vs => segment.sortedVariant = true → vs.Pairwise (· < ·))
      twoRanges.segments [(⟨0, 10⟩ : U64Range).values, (⟨12, 20⟩ : U64Range).values] :=
    .cons (fun _ => U64Range.pairwise_values _) (.cons (fun _ => U64Range.pairwise_values _) .nil)
  have distinct : [(⟨0, 10⟩ : U64Range).values, (⟨12, 20⟩ : U64Range).values].flatten.Nodup := by decide
  have short : twoRanges.len < 2 ^ 32 := by decide
  have increasing : ([0, 3, 9, 10, 17] : List UInt32).Pairwise (· < ·) := by decide
  have inside : ∀ p ∈ ([0, 3, 9, 10, 17] : List UInt32), p.toNat < twoRanges.len := by
    have length : twoRanges.len = 18 := by decide
    simp [length]
  exact ⟨_, represents, ordered, distinct, short, increasing, inside,
    mask_removes_positions represents ordered distinct short increasing inside⟩

def pastU32 : RowIdSequence := ⟨[.range ⟨0, 2 ^ 32 + 5⟩]⟩

/-- On a segment of more than `u32::MAX` rows the cast of its length to `u32`
drops the high bits, and a position inside the sequence is taken to lie past
the cutoff: nothing is masked. -/
theorem mask_skips_position_past_u32_cutoff :
    7 < pastU32.len ∧ pastU32.mask [7] = some pastU32 := by
  decide

end Masked

end RowIdSequence

end Lance.RowIds
