import Lance.RowIds.SequenceEdit

/-! `RowIdSequence::get` and `select` (`rowids.rs`) on segments that each hold
a list of row ids. `get` reads the row id at a position of the lists put end
to end. `select` walks the segments once, with a cursor that the closure of
its `filter_map` keeps from one sorted position to the next: it yields the row
id at each position below the length, in order, and skips the rest. -/

namespace Lance.RowIds

open Lance.Library U64Segment

namespace RowIdSequence

/-- The loop of `get`, after the rows before `offset`: the row id at `index` of
the lists that the segments hold, while the rows stay below `2 ^ 64`. -/
theorem getLoop_eq : ∀ {segments : List U64Segment} {lists : List (List UInt64)},
    List.Forall₂ Represents segments lists → ∀ {index offset : Nat}, offset ≤ index → index < 2 ^ 64 →
      offset + lists.flatten.length < 2 ^ 64 → getLoop segments index offset = some lists.flatten[index - offset]?
  | [], [], .nil, _, _, _, _, _ => rfl
  | _ :: _, vs :: rest, .cons head restHold, index, offset, before, usize, fits => by
    rw [List.flatten_cons, List.length_append] at fits
    have stop : debugAdd 64 offset vs.length = some (offset + vs.length) := by
      rw [debugAdd, if_pos (by omega)]
    simp only [getLoop, head.len_eq, stop, Option.bind_eq_bind, Option.bind_some]
    rw [List.flatten_cons]
    by_cases inside : index < offset + vs.length
    · rw [if_pos inside, head.get_eq _ (by omega), List.getElem?_append_left (by omega)]
    · rw [if_neg inside, getLoop_eq restHold (by omega) usize (by omega), List.getElem?_append_right (by omega)]
      congr 2
      omega

/-- The cursor of `select` over segments that hold `lists`, as each call of
the closure leaves it: at a segment, with the rows of the lists before it
passed and no position before them still to come; or past the last segment,
with no position before the end still to come. -/
def SelectCursor.Tracks (cursor : SelectCursor) (lists : List (List UInt64)) : Prop :=
  (∃ seg passed vs ahead, cursor.curSeg = some seg ∧ lists = passed ++ vs :: ahead ∧
      List.Forall₂ Represents (seg :: cursor.segIter) (vs :: ahead) ∧ cursor.rowsPassed = passed.flatten.length ∧
      cursor.curSegLen = vs.length ∧ cursor.rowsPassed ≤ cursor.lastIndex) ∨
    (cursor.curSeg = none ∧ lists.flatten.length ≤ cursor.lastIndex)

theorem tracks_start : ∀ {segments : List U64Segment} {lists : List (List UInt64)},
    List.Forall₂ Represents segments lists →
      SelectCursor.Tracks ⟨segments.tail, segments.head?, 0, (segments.head?.map U64Segment.len).getD 0, 0⟩ lists
  | [], [], .nil => .inr ⟨rfl, Nat.le_refl 0⟩
  | seg :: _, vs :: ahead, .cons head rest => .inl ⟨seg, [], vs, ahead, rfl, rfl, .cons head rest, rfl, head.len_eq, Nat.le_refl 0⟩

/-- The `while` loop of the closure stops at the segment that holds a
position before the end, after the lists it skips. -/
theorem passSegments_found {index : Nat} : ∀ {segIter : List U64Segment} {seg : U64Segment} {vs : List UInt64}
    {ahead : List (List UInt64)} {rowsPassed : Nat}, List.Forall₂ Represents (seg :: segIter) (vs :: ahead) →
    rowsPassed ≤ index → index < rowsPassed + (vs :: ahead).flatten.length →
    ∃ skipped seg' vs' ahead' segIter', vs :: ahead = skipped ++ vs' :: ahead' ∧
      passSegments index segIter (some seg) rowsPassed vs.length =
        ((segIter', some seg', rowsPassed + skipped.flatten.length, vs'.length), true) ∧
      List.Forall₂ Represents (seg' :: segIter') (vs' :: ahead') ∧
      rowsPassed + skipped.flatten.length ≤ index ∧ index < rowsPassed + skipped.flatten.length + vs'.length
  | segIter, seg, vs, ahead, rowsPassed, represents, before, inside => by
    unfold passSegments
    by_cases passed : vs.length ≤ index - rowsPassed
    · rw [if_pos passed]
      cases represents with
      | cons head rest =>
        cases rest with
        | nil =>
          simp only [List.flatten_cons, List.flatten_nil, List.append_nil] at inside
          omega
        | @cons seg2 vs2 segIter2 ahead2 head2 rest2 =>
          simp only [List.flatten_cons, List.length_append] at inside
          dsimp only
          rw [head2.len_eq]
          obtain ⟨skipped, seg', vs', ahead', segIter', split, loop, represents', reached, within⟩ :=
            @passSegments_found index segIter2 seg2 vs2 ahead2 (rowsPassed + vs.length) (.cons head2 rest2) (by omega) (by simp only [List.flatten_cons, List.length_append]; omega)
          refine ⟨vs :: skipped, seg', vs', ahead', segIter', by rw [split, List.cons_append], ?_, represents', ?_, ?_⟩
          · rw [loop, List.flatten_cons, List.length_append, Nat.add_assoc]
          all_goals
            rw [List.flatten_cons, List.length_append]
            omega
    · rw [if_neg passed]
      exact ⟨[], seg, vs, ahead, segIter, rfl, by simp, represents, by simp only [List.flatten_nil, List.length_nil]; omega,
        by simp only [List.flatten_nil, List.length_nil]; omega⟩

theorem passSegments_past {index : Nat} : ∀ {segIter : List U64Segment} {seg : U64Segment} {vs : List UInt64}
    {ahead : List (List UInt64)} {rowsPassed : Nat}, List.Forall₂ Represents (seg :: segIter) (vs :: ahead) →
    rowsPassed + (vs :: ahead).flatten.length ≤ index →
    ∃ rowsPassed' curSegLen', passSegments index segIter (some seg) rowsPassed vs.length =
      (([], none, rowsPassed', curSegLen'), false)
  | segIter, seg, vs, ahead, rowsPassed, represents, past => by
    simp only [List.flatten_cons, List.length_append] at past
    unfold passSegments
    rw [if_pos (by omega)]
    cases represents with
    | cons head rest =>
      cases rest with
      | nil => exact ⟨_, _, rfl⟩
      | @cons seg2 vs2 segIter2 ahead2 head2 rest2 =>
        dsimp only
        rw [head2.len_eq]
        exact @passSegments_past index segIter2 seg2 vs2 ahead2 (rowsPassed + vs.length) (.cons head2 rest2)
          (by simp only [List.flatten_cons, List.length_append] at past ⊢; omega)

theorem getElem?_flatten_middle {α : Type} {front : List (List α)} {vs : List α} {back : List (List α)}
    {index : Nat} (within : front.flatten.length ≤ index) (below : index < front.flatten.length + vs.length) :
    (front ++ vs :: back).flatten[index]? = vs[index - front.flatten.length]? := by
  rw [List.flatten_append, List.getElem?_append_right within, List.flatten_cons,
    List.getElem?_append_left (by omega)]

/-- One call of the closure of `select`, at a position no earlier than the
last: the row id there, or none past the end, and a cursor that still tracks
the lists. -/
theorem step_of_tracks {cursor : SelectCursor} {lists : List (List UInt64)} (tracks : cursor.Tracks lists)
    {index : Nat} (later : cursor.lastIndex ≤ index) (usize : index < 2 ^ 64) :
    ∃ after : SelectCursor, cursor.step index = some (lists.flatten[index]?, after) ∧ after.Tracks lists ∧
      after.lastIndex = index := by
  rcases tracks with ⟨seg, passed, vs, ahead, atSeg, split, represents, rowsPassed, curSegLen, before⟩ |
    ⟨exhausted, ended⟩
  case inr =>
    refine ⟨{ cursor with lastIndex := index }, ?_, .inr ⟨exhausted, by dsimp only; omega⟩, rfl⟩
    rw [SelectCursor.step, if_neg (by omega), exhausted, List.getElem?_eq_none (by omega)]
    rfl
  case inl =>
    have flattened : lists.flatten.length = cursor.rowsPassed + (vs :: ahead).flatten.length := by
      rw [split, List.flatten_append, List.length_append, rowsPassed]
    rw [SelectCursor.step, if_neg (by omega), atSeg, curSegLen]
    by_cases inside : index < cursor.rowsPassed + (vs :: ahead).flatten.length
    · obtain ⟨skipped, seg', vs', ahead', segIter', split', loop, represents', reached, within⟩ :=
        passSegments_found represents (by omega) inside
      have passed' : (passed ++ skipped).flatten.length = cursor.rowsPassed + skipped.flatten.length := by
        rw [List.flatten_append, List.length_append, rowsPassed]
      have row : lists.flatten[index]? = vs'[index - (cursor.rowsPassed + skipped.flatten.length)]? := by
        rw [split, split', ← List.append_assoc, getElem?_flatten_middle (by omega) (by omega), passed']
      obtain ⟨rowId, found⟩ : ∃ rowId, vs'[index - (cursor.rowsPassed + skipped.flatten.length)]? = some rowId :=
        ⟨_, List.getElem?_eq_getElem (by omega)⟩
      refine ⟨⟨segIter', some seg', cursor.rowsPassed + skipped.flatten.length, vs'.length, index⟩, ?_,
        .inl ⟨seg', passed ++ skipped, vs', ahead', rfl, by rw [split, split', List.append_assoc], represents',
          passed'.symm, rfl, by dsimp only; omega⟩, rfl⟩
      have head' := (List.forall₂_cons.mp represents').1
      have get := head'.get_eq (index - (cursor.rowsPassed + skipped.flatten.length)) (by omega)
      simp only [Option.isNone_some, Bool.false_eq_true, if_false, loop, if_true, Option.pure_def,
        Option.bind_eq_bind, Option.bind_some, get, found, row]
    · obtain ⟨rowsPassed', curSegLen', loop⟩ := passSegments_past represents
        (show cursor.rowsPassed + (vs :: ahead).flatten.length ≤ index by omega)
      refine ⟨⟨[], none, rowsPassed', curSegLen', index⟩, ?_, .inr ⟨rfl, by dsimp only; omega⟩, rfl⟩
      simp only [Option.isNone_some, Bool.false_eq_true, if_false, loop,
        List.getElem?_eq_none (show lists.flatten.length ≤ index by omega)]

/-- The closure of `select` over sorted positions, from a cursor
that tracks the lists: the row ids at the positions below the end. -/
theorem selectLoop_eq {lists : List (List UInt64)} : ∀ {selection : List Nat} {cursor : SelectCursor},
    cursor.Tracks lists → selection.Pairwise (· ≤ ·) →
    (∀ index ∈ selection, cursor.lastIndex ≤ index ∧ index < 2 ^ 64) →
    selectLoop cursor selection = some (selection.filterMap fun index => lists.flatten[index]?)
  | [], _, _, _, _ => rfl
  | index :: rest, cursor, tracks, sorted, bounded => by
    obtain ⟨later, usize⟩ := bounded index List.mem_cons_self
    obtain ⟨after, step, tracks', lastIndex⟩ := step_of_tracks tracks later usize
    rw [List.pairwise_cons] at sorted
    have rest' := selectLoop_eq tracks' sorted.2 fun i mem =>
      ⟨lastIndex ▸ sorted.1 i mem, (bounded i (List.mem_cons_of_mem _ mem)).2⟩
    simp only [selectLoop, step, Option.bind_eq_bind, Option.bind_some, rest', Option.pure_def,
      List.filterMap_cons]
    cases lists.flatten[index]? <;> rfl

theorem forall₂_filter_filterMap {sequence : RowIdSequence} {lists : List (List UInt64)}
    (getEq : ∀ index < 2 ^ 64, sequence.get index = some lists.flatten[index]?)
    (len : sequence.len = lists.flatten.length) : ∀ {selection : List Nat}, (∀ index ∈ selection, index < 2 ^ 64) →
    List.Forall₂ (fun index rowId => sequence.get index = some (some rowId)) (selection.filter (· < sequence.len))
      (selection.filterMap fun index => lists.flatten[index]?)
  | [], _ => .nil
  | index :: rest, usize => by
    have later := forall₂_filter_filterMap getEq len fun i mem => usize i (List.mem_cons_of_mem _ mem)
    have get := getEq index (usize index List.mem_cons_self)
    rw [List.filter_cons, List.filterMap_cons]
    by_cases inside : index < sequence.len
    · rw [if_pos (decide_eq_true inside), List.getElem?_eq_getElem (len ▸ inside)]
      exact .cons (by rw [get, List.getElem?_eq_getElem]) later
    · rw [if_neg (by simpa using inside), List.getElem?_eq_none (by omega)]
      exact later

/-- On segments that hold lists of row ids, `select` at sorted `usize`
positions yields, in order, the row id `get` reads at each position below the
length and skips the rest; and `get` reads the row id at that place of
`iter`. -/
theorem select_eq_get {sequence : RowIdSequence} {lists : List (List UInt64)}
    (represents : List.Forall₂ Represents sequence.segments lists) (fits : sequence.len < 2 ^ 64) {selection : List Nat}
    (sorted : selection.Pairwise (· ≤ ·)) (usize : ∀ index ∈ selection, index < 2 ^ 64) :
    (∃ rowIds, sequence.select selection = some rowIds ∧
      List.Forall₂ (fun index rowId => sequence.get index = some (some rowId))
        (selection.filter (· < sequence.len)) rowIds) ∧
    ∀ index < 2 ^ 64, sequence.get index = sequence.iter.map fun rowIds => rowIds[index]? := by
  have len : sequence.len = lists.flatten.length := len_of_represents represents
  have getEq : ∀ index < 2 ^ 64, sequence.get index = some lists.flatten[index]? := fun index below => by
    have loop := getLoop_eq represents (Nat.zero_le index) below (by omega)
    rwa [Nat.sub_zero] at loop
  have iter : sequence.iter = some lists.flatten := iter_of_represents represents
  have selected := selectLoop_eq (tracks_start represents) sorted fun index mem => ⟨Nat.zero_le index, usize index mem⟩
  refine ⟨⟨_, selected, forall₂_filter_filterMap getEq len usize⟩, fun index below => ?_⟩
  rw [getEq index below, iter, Option.map_some]

def threeRanges : RowIdSequence := ⟨[.range ⟨0, 5⟩, .range ⟨10, 15⟩, .range ⟨20, 25⟩]⟩

theorem select_eq_get_at_threeRanges :
    ∃ lists, List.Forall₂ Represents threeRanges.segments lists ∧ threeRanges.len < 2 ^ 64 ∧
      [2, 4, 13, 13, 14, 57].Pairwise (· ≤ ·) ∧
      (∀ index ∈ [2, 4, 13, 13, 14, 57], index < 2 ^ 64) ∧
      ((∃ rowIds, threeRanges.select [2, 4, 13, 13, 14, 57] = some rowIds ∧
        List.Forall₂ (fun index rowId => threeRanges.get index = some (some rowId))
          ([2, 4, 13, 13, 14, 57].filter (· < threeRanges.len)) rowIds) ∧
      ∀ index < 2 ^ 64, threeRanges.get index = threeRanges.iter.map fun rowIds => rowIds[index]?) := by
  have represents : List.Forall₂ Represents threeRanges.segments
      [(⟨0, 5⟩ : U64Range).values, (⟨10, 15⟩ : U64Range).values, (⟨20, 25⟩ : U64Range).values] :=
    .cons (represents_range _ (by decide)) (.cons (represents_range _ (by decide))
      (.cons (represents_range _ (by decide)) .nil))
  have sorted : [2, 4, 13, 13, 14, 57].Pairwise (· ≤ ·) := by decide
  have usize : ∀ index ∈ [2, 4, 13, 13, 14, 57], index < 2 ^ 64 := by decide
  have fits : threeRanges.len < 2 ^ 64 := by decide
  exact ⟨_, represents, fits, sorted, usize, select_eq_get represents fits sorted usize⟩

example : threeRanges.select [2, 4, 13, 14, 57] = some [2, 4, 23, 24] := by decide

example : threeRanges.select [2, 4, 3] = none := by decide

/-- Where `get` and `iter` part: a segment as `read_row_ids` takes it from a
file, with a hole outside its range, whose length counts the hole, so `get`
stops one row short of `iter`; and the range `0..u64::MAX` followed by the
segment `from_slice([u64::MAX])`, whose `2 ^ 64` rows make `offset +
segment_len` overflow at the last position, where `get` panics. -/
theorem get_fails_at_outside_hole_and_overflow :
    (⟨[.rangeWithHoles ⟨0, 3⟩ (.u64 [10])]⟩ : RowIdSequence).get 2 = some none ∧
      (⟨[.rangeWithHoles ⟨0, 3⟩ (.u64 [10])]⟩ : RowIdSequence).iter.map (fun rowIds => rowIds[2]?) = some (some 2) ∧
      U64Segment.fromSlice [0xFFFFFFFFFFFFFFFF] = some (.sortedArray (.u16 0xFFFFFFFFFFFFFFFF [0])) ∧
      (⟨[.range ⟨0, 0xFFFFFFFFFFFFFFFF⟩, .sortedArray (.u16 0xFFFFFFFFFFFFFFFF [0])]⟩ : RowIdSequence).len = 2 ^ 64 ∧
      (⟨[.range ⟨0, 0xFFFFFFFFFFFFFFFF⟩, .sortedArray (.u16 0xFFFFFFFFFFFFFFFF [0])]⟩ : RowIdSequence).get (2 ^ 64 - 1) =
        none :=
  ⟨by decide, by decide, rfl, rfl, rfl⟩

end RowIdSequence

end Lance.RowIds
