import Lance.Library.ExceptRun
import Lance.RowIds.IndexNew
import Mathlib.Data.List.TakeWhile

/-! `get_many` against `get`. The batched lookup sorts the row ids and walks
the map's chunks once, skipping the chunks that end before the current row id;
the per-id lookup asks the map for the chunk that covers the row id. The two
agree because the chunks the map yields are in increasing order and cover a
row id exactly where the map's lookup finds it (`get_eq_some_iff_iter`), so a
chunk skipped for one row id covers no later one. The walk's writes go to
distinct places, so their order, that of the sorted copy, does not matter. -/

namespace Lance.RowIds

open Lance.Library Lance.Core

namespace RowIdIndex

variable {Map : Type} {ops : RangeMapOps UInt64 (U64Segment × U64Segment) Map} {index : RowIdIndex Map}

theorem get_eq_addressIn {rowId : UInt64} {rowIdSegment addressSegment : U64Segment}
    (found : ops.get index.map rowId = some (rowIdSegment, addressSegment)) :
    index.get ops rowId = addressIn rowIdSegment addressSegment rowId := by
  simp only [get, found, addressIn]

theorem get_eq_of_uncovered (lawful : ops.Lawful) {entries} (built : ops.fromIter entries = some index.map)
    {rowId : UInt64} (uncovered : ∀ piece ∈ ops.iter index.map, ¬ Covers piece.1 rowId) :
    index.get ops rowId = some none := by
  simp only [get, lawful.get_eq_none_of_iter built uncovered]

/-! ### The lookups, one row id at a time -/

/-- The address found for a row id written at its place, as `get_many` writes it. -/
def place (out : List (Option RowAddress)) (origIdx : Nat) : Option RowAddress → List (Option RowAddress)
  | some address => out.set origIdx (some address)
  | none => out

/-- One row id of the input looked up with `get`, and what it finds written at its place. -/
def record (ops : RangeMapOps UInt64 (U64Segment × U64Segment) Map) (index : RowIdIndex Map)
    (out : List (Option RowAddress)) (entry : UInt64 × Nat) : Option (List (Option RowAddress)) :=
  (index.get ops entry.1).map (place out entry.2)

theorem place_comm (out : List (Option RowAddress)) {i j : Nat} (differ : i ≠ j) (found other : Option RowAddress) :
    place (place out i found) j other = place (place out j other) i found := by
  cases found <;> cases other <;> simp [place, List.set_comm _ _ differ]

theorem foldlM_record_of_none {out : List (Option RowAddress)} :
    ∀ {entries : List (UInt64 × Nat)}, (∀ entry ∈ entries, index.get ops entry.1 = some none) →
      entries.foldlM (record ops index) out = some out
  | [], _ => rfl
  | entry :: rest, missing => by
    rw [List.foldlM_cons, record, missing entry List.mem_cons_self]
    exact foldlM_record_of_none fun other member => missing other (List.mem_cons_of_mem _ member)

theorem foldlM_record_perm {entries others : List (UInt64 × Nat)} (shuffled : entries.Perm others)
    (places : (entries.map Prod.snd).Nodup) (out : List (Option RowAddress)) :
    entries.foldlM (record ops index) out = others.foldlM (record ops index) out := by
  rw [List.foldlM_eq_foldl, List.foldlM_eq_foldl]
  refine shuffled.foldl_eq' (fun x xMember y yMember acc => ?_) _
  by_cases same : x = y
  · rw [same]
  have differ : x.2 ≠ y.2 := fun equal => same (List.inj_on_of_nodup_map places xMember yMember equal)
  cases acc with
  | none => rfl
  | some current =>
    cases hx : index.get ops x.1 with
    | none => cases hy : index.get ops y.1 <;> simp [record, hx, hy]
    | some found =>
      cases hy : index.get ops y.1 with
      | none => simp [record, hx, hy]
      | some other => simp [record, hx, hy, place_comm current differ]

theorem foldlM_record_zip :
    ∀ (rowIds : List UInt64) (done : List (Option RowAddress)),
      (rowIds.zip (List.range' done.length rowIds.length)).foldlM (record ops index)
        (done ++ List.replicate rowIds.length none) = (rowIds.mapM (index.get ops)).map (done ++ ·)
  | [], done => by simp
  | rowId :: rest, done => by
    rw [List.length_cons, List.range'_succ, List.zip_cons_cons, List.foldlM_cons, List.mapM_cons]
    cases found : index.get ops rowId with
    | none => simp [record, found]
    | some address =>
      -- the place of this row id is the first one not yet written
      have written : place (done ++ List.replicate (rest.length + 1) none) done.length address =
          (done ++ [address]) ++ List.replicate rest.length none := by
        cases address <;> simp [place, List.replicate_succ, List.set_append_right]
      have later := foldlM_record_zip rest (done ++ [address])
      simp only [List.length_append, List.length_singleton] at later
      simp only [record, found, Option.map_some, written, Option.bind_eq_bind, Option.bind_some, later,
        Nat.add_one]
      cases rest.mapM (index.get ops) <;> simp

/-! ### The walk over the chunks -/

/-- The run lemma of the walk. The chunks skipped so far end before every row
id still to come, so each row id is either covered by the first chunk left or
by none, and the walk writes what `get` finds. -/
theorem getManyLoop_eq (lawful : ops.Lawful) {entries} (built : ops.fromIter entries = some index.map) :
    ∀ {sorted : List (UInt64 × Nat)} {skipped chunks : List ((UInt64 × UInt64) × (U64Segment × U64Segment))}
      (out : List (Option RowAddress)),
      skipped ++ chunks = ops.iter index.map → sorted.Pairwise (fun a b => a.1 ≤ b.1) →
      (∀ piece ∈ skipped, ∀ entry ∈ sorted, piece.1.2 < entry.1) →
      getManyLoop chunks sorted out = sorted.foldlM (record ops index) out
  | [], _, _, _, _, _, _ => rfl
  | (id, origIdx) :: sorted, skipped, chunks, out, pieces, ascending, passed => by
    obtain ⟨first, ascending⟩ := List.pairwise_cons.mp ascending
    -- the chunks passed now end before this row id and every later one
    have passedNow : ∀ piece ∈ skipped ++ chunks.takeWhile (fun chunk => decide (chunk.1.2 < id)),
        ∀ entry ∈ (id, origIdx) :: sorted, piece.1.2 < entry.1 := by
      intro piece member entry entryMember
      rcases List.mem_append.mp member with old | new
      · exact passed piece old entry entryMember
      · have before : piece.1.2 < id := of_decide_eq_true (List.mem_takeWhile_imp
          (p := fun chunk : (UInt64 × UInt64) × (U64Segment × U64Segment) => decide (chunk.1.2 < id)) new)
        rcases List.mem_cons.mp entryMember with rfl | later
        · exact before
        · exact UInt64.lt_of_lt_of_le before (first entry later)
    have split : (skipped ++ chunks.takeWhile (fun chunk => decide (chunk.1.2 < id))) ++
        chunks.dropWhile (fun chunk => decide (chunk.1.2 < id)) = ops.iter index.map := by
      rw [List.append_assoc, List.takeWhile_append_dropWhile, pieces]
    have laterPassed := fun piece member entry entryMember =>
      passedNow piece member entry (List.mem_cons_of_mem _ entryMember)
    simp only [getManyLoop]
    split
    · -- `break`: no chunk covers this row id or a later one
      rename_i none_left
      rw [none_left, List.append_nil] at split
      refine (foldlM_record_of_none fun entry member =>
        get_eq_of_uncovered lawful built fun piece held => ?_).symm
      rw [← split] at held
      exact not_covers_of_end_lt (passedNow piece held entry member)
    · rename_i range rowIdSeg addrSeg later left
      have notBefore : ¬ range.2 < id := by
        have stops := List.head_dropWhile_not (fun chunk : (UInt64 × UInt64) × (U64Segment × U64Segment) =>
          decide (chunk.1.2 < id)) (l := chunks) (by rw [left]; exact List.cons_ne_nil _ _)
        simpa [left] using stops
      rw [left] at split
      have chunkMember : (range, (rowIdSeg, addrSeg)) ∈ ops.iter index.map := by
        rw [← split]
        exact List.mem_append_right _ List.mem_cons_self
      have next := getManyLoop_eq lawful built out split ascending laterPassed
      split
      · -- `continue`: the row id lies in the gap before the chunk
        rename_i gap
        have increasing := lawful.increasing_iter built
        have ends : ∀ piece ∈ later, range.2 < piece.1.1 := by
          rw [← split] at increasing
          exact (List.pairwise_cons.mp (List.pairwise_append.mp increasing.before).2.1).1
        have uncovered : ∀ piece ∈ ops.iter index.map, ¬ Covers piece.1 id := by
          rw [← split]
          intro piece member
          rcases List.mem_append.mp member with old | here
          · exact not_covers_of_end_lt (passedNow piece old _ List.mem_cons_self)
          rcases List.mem_cons.mp here with rfl | farther
          · exact not_covers_of_lt_start gap
          · have nonempty := increasing.nonempty _ chunkMember
            exact not_covers_of_lt_start
              (UInt64.lt_of_lt_of_le gap (UInt64.le_trans nonempty (UInt64.le_of_lt (ends piece farther))))
        rw [List.foldlM_cons, record, get_eq_of_uncovered lawful built uncovered]
        exact next
      · -- the chunk covers the row id, and the map finds it there
        rename_i covered
        have covers : Covers range id := ⟨UInt64.not_lt.mp covered, UInt64.not_lt.mp notBefore⟩
        have found := get_eq_addressIn (lawful.get_eq_of_mem_iter built chunkMember covers)
        rw [List.foldlM_cons, record, found]
        cases addressIn rowIdSeg addrSeg id with
        | none => rfl
        | some address =>
          have step := getManyLoop_eq lawful built (place out origIdx address) split ascending laterPassed
          cases address <;> exact step

/-- `get_many` finds for every row id, in input order, what `get` finds, in
any lawful map `from_iter` builds. -/
theorem getMany_eq_mapM (lawful : ops.Lawful) {entries} (built : ops.fromIter entries = some index.map)
    (rowIds : List UInt64) : index.getMany ops rowIds = rowIds.mapM (index.get ops) := by
  unfold getMany
  dsimp only
  split
  · rename_i empty
    rw [List.length_eq_zero_iff.mp empty]
    rfl
  · have sortedOrder := pairwise_mergeSort_key Prod.fst (rowIds.zip (List.range rowIds.length))
    have places : ((rowIds.zip (List.range rowIds.length)).map Prod.snd).Nodup := by
      rw [List.map_snd_zip (by simp)]
      exact List.nodup_range
    rw [getManyLoop_eq lawful built _
      (List.nil_append _ : [] ++ ops.iter index.map = _) sortedOrder (by simp),
      foldlM_record_perm (List.mergeSort_perm _ _) (((List.mergeSort_perm _ _).map Prod.snd).nodup_iff.mpr places) _,
      List.range_eq_range']
    simpa using foldlM_record_zip rowIds []

theorem fromIter_of_new {fragments : List FragmentRowIdIndex} (built : RowIdIndex.new ops fragments = pure index) :
    ∃ entries, ops.fromIter entries = some index.map := by
  obtain ⟨_, _, built⟩ := exceptT_bind_eq_pure.mp built
  obtain ⟨_, _, built⟩ := exceptT_bind_eq_pure.mp built
  obtain ⟨_, _, built⟩ := exceptT_bind_eq_pure.mp built
  obtain ⟨map, fromIter, built⟩ := exceptT_bind_eq_pure.mp built
  cases built
  exact ⟨_, liftM_eq_pure.mp fromIter⟩

theorem getMany_eq_mapM_get (lawful : ops.Lawful) {fragments : List FragmentRowIdIndex}
    (built : RowIdIndex.new ops fragments = pure index) (rowIds : List UInt64) :
    index.getMany ops rowIds = rowIds.mapM (index.get ops) := by
  obtain ⟨entries, fromIter⟩ := fromIter_of_new built
  exact getMany_eq_mapM lawful fromIter rowIds

def rangeFragment : List FragmentRowIdIndex := [⟨3, ⟨[.range ⟨10, 13⟩]⟩, ⟨[]⟩⟩]

theorem getMany_eq_mapM_get_on_rangeFragment :
    insertionOps.Lawful ∧ ∃ index, RowIdIndex.new insertionOps rangeFragment = pure index ∧
      index.getMany insertionOps [12, 99, 10, 10, 5] = some [some (RowAddress.newFromParts 3 2), none,
        some (RowAddress.newFromParts 3 0), some (RowAddress.newFromParts 3 0), none] := by
  have lawful : insertionOps.Lawful := InsertionRangeMap.lawful StepLite.uint64
  let chunk : IndexChunk := ⟨(10, 12), .range ⟨10, 13⟩, .range ⟨0x300000000, 0x300000003⟩⟩
  have decomposed : (rangeFragment.mapM decomposeSequence).map List.flatten = some [chunk] := by decide
  have prepped : prepIndexChunks [chunk] = some [.nonOverlapping chunk] := by
    rw [prepIndexChunks, List.mergeSort_singleton]
    rfl
  have built : RowIdIndex.new insertionOps rangeFragment = pure ⟨⟨[chunk.entry]⟩⟩ := by
    simp only [RowIdIndex.new, decomposed, prepped, liftM_some, pure_bind]
    rfl
  -- 99 lies past the last chunk, and 5 in the gap before it
  exact ⟨lawful, _, built, by rw [getMany_eq_mapM_get lawful built]; decide⟩

end RowIdIndex

end Lance.RowIds
