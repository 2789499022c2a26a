import Lance.Select.InsertRange
import Lance.RowIds.Index

/-! `From<&RowIdSequence> for RowAddrTreeMap` of `lance-table`: each segment's
row ids as a map of its own, united into one. A range is inserted whole with
`insert_range`, and then its holes, or the rows its bitmap leaves out, are
removed one by one; an array's values are inserted one by one. -/

namespace Lance.RowIds

open Lance.Select Lance.Select.RowAddrTreeMap

/-- The map of one segment's row ids; `none` where building it panics. -/
def segmentTreeMap : U64Segment → Option RowAddrTreeMap
  | .range range => (new.insertRange (.included range.start) (.excluded range.stop)).map Prod.fst
  | .rangeWithBitmap range bitmap => do
    let (seg, _) ← new.insertRange (.included range.start) (.excluded range.stop)
    range.values.zipIdx.foldlM (fun seg (val, i) => do
      let present ← bitmap.get i
      pure (if !present then (seg.remove val).1 else seg)) seg
  | .rangeWithHoles range holes => do
    let (seg, _) ← new.insertRange (.included range.start) (.excluded range.stop)
    pure (holes.iter.foldl (fun seg hole => (seg.remove hole).1) seg)
  | .sortedArray array | .array array => some (array.iter.foldl (fun seg val => (seg.insert val).1) new)

def RowIdSequence.toTreeMap (rowIds : RowIdSequence) : Option RowAddrTreeMap :=
  rowIds.segments.foldlM (fun treeMap segment => do pure (treeMap ||| (← segmentTreeMap segment))) new

def emptyRange : RowIdSequence := ⟨[.range ⟨0, 0⟩]⟩

theorem insertRange_zero_range_and_last_fragment :
    (new.insertRange (.included 0) (.excluded 0)).map (fun inserted => (inserted.1.contains 0, inserted.2)) =
        some (true, 1) ∧
      (∀ (map : RowAddrTreeMap) (startBound : Bound) (stop : UInt64), (stop >>> 32).toUInt32 = 0xFFFFFFFF →
        map.insertRange startBound (.included stop) = none ∧ map.insertRange startBound .unbounded = none) ∧
      emptyRange.iter = some [] ∧ (emptyRange.toTreeMap.map fun map => map.contains 0) = some true := by
  refine ⟨?_, fun map startBound stop last =>
    ⟨insertRange_last_fragment map startBound last, insertRange_unbounded map startBound⟩, rfl, ?_⟩
  · rw [insertRange_zero_zero]
    decide
  · simp only [RowIdSequence.toTreeMap, emptyRange, segmentTreeMap, insertRange_zero_zero, List.foldlM_cons,
      List.foldlM_nil, Option.map_some, Option.bind_eq_bind, Option.bind_some, Option.pure_def, contains_or]
    decide

end Lance.RowIds
