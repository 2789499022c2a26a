import Lance.Select.RowAddrSet

/-! `RowAddrTreeMap::insert_range`. The range's ends are split into a fragment
(the upper half) and a row (the lower half), and the loop adds one fragment's
slice of the range a round. Two things go wrong at the edges of `u64`. An
excluded end is moved down by `saturating_sub(1)`, which leaves `0` where it
should leave nothing, so `0..0` inserts row 0. And the loop moves past the
fragment it has just filled with `start_high += 1`, which overflows once that
fragment is `u32::MAX`: a debug build panics there, and a release build wraps to
fragment 0 and never stops. -/

namespace Lance.Select.RowAddrTreeMap

open Lance.Library

def ofRange (start stop : UInt64) : Option RowAddrTreeMap :=
  (new.insertRange (.included start) (.excluded stop)).map Prod.fst

theorem le_lastFragment (fragment : UInt32) : fragment ≤ 0xFFFFFFFF := by
  have := fragment.toNat_lt
  exact UInt32.le_iff_toNat_le.mpr (by change _ ≤ 4294967295; omega)

theorem mem_insertRange {set : RoaringBitmap} {start stop value : UInt32} :
    value ∈ (RoaringBitmap.insertRange set start stop).1 ↔ value ∈ set ∨ (start ≤ value ∧ value ≤ stop) := by
  simp [RoaringBitmap.insertRange]

theorem insertRange_empty_single (value : UInt32) : (RoaringBitmap.insertRange ∅ value value).1 = {value} := by
  ext x
  rw [mem_insertRange, Finset.mem_singleton]
  constructor
  · rintro (absent | ⟨above, below⟩)
    · exact absurd absent (Finset.notMem_empty x)
    · exact UInt32.le_antisymm below above
  · rintro rfl
    exact Or.inr ⟨UInt32.le_refl _, UInt32.le_refl _⟩

theorem succ_not_le_of_lt_last {fragment : UInt32} (below : fragment < 0xFFFFFFFF) : ¬ fragment + 1 ≤ fragment := by
  have lt : fragment.toNat < 4294967295 := UInt32.lt_iff_toNat_lt.mp below
  rw [UInt32.le_iff_toNat_le, UInt32.toNat_add, UInt32.toNat_one, Nat.mod_eq_of_lt (by omega)]
  omega

theorem insertRangeLoop_one_fragment {endHigh endLow startLow : UInt32} {map : RowAddrTreeMap} {count : UInt64}
    (below : endHigh < 0xFFFFFFFF) (fresh : map.inner.lookup endHigh = none) :
    insertRangeLoop endHigh endLow map count endHigh startLow =
      some (⟨map.inner.insert endHigh (.partialRows (RoaringBitmap.insertRange ∅ startLow endLow).1)⟩,
        count + (RoaringBitmap.insertRange ∅ startLow endLow).2) := by
  rw [insertRangeLoop]
  simp only [UInt32.le_refl, if_true, fresh, below, dif_pos]
  rw [insertRangeLoop]
  simp [succ_not_le_of_lt_last below]

theorem insertRangeLoop_last_fragment (endLow : UInt32) (map : RowAddrTreeMap) (count : UInt64)
    (startHigh startLow : UInt32) : insertRangeLoop 0xFFFFFFFF endLow map count startHigh startLow = none := by
  fun_induction insertRangeLoop 0xFFFFFFFF endLow map count startHigh startLow with
  | case1 =>
    rename_i continues
    exact continues
  | case2 => rfl
  | case3 =>
    rename_i beyond
    exact absurd (le_lastFragment _) beyond

theorem insertRange_zero_zero :
    new.insertRange (.included 0) (.excluded 0) = some (⟨(∅ : Inner).insert 0 (.partialRows {0})⟩, 1) := by
  rw [insertRange]
  simp only [splitHighLow, saturatingSub]
  rw [insertRangeLoop]
  simp [new, RoaringBitmap.insertRange, Finset.filter_eq']
  rw [insertRangeLoop]
  simp

theorem insertRange_last_fragment (map : RowAddrTreeMap) (startBound : Bound) {stop : UInt64}
    (last : (stop >>> 32).toUInt32 = 0xFFFFFFFF) : map.insertRange startBound (.included stop) = none := by
  cases startBound <;> simpa only [insertRange, splitHighLow, last] using insertRangeLoop_last_fragment _ _ _ _ _

theorem iter_singleton (fragment : UInt32) (selection : RowAddrSelection) :
    (⟨AList.singleton fragment selection⟩ : RowAddrTreeMap).iter = [⟨fragment, selection⟩] := by
  simp [RowAddrTreeMap.iter]

theorem runs_singleton (value : UInt32) : RoaringBitmap.runs {value} = [(value, value)] := by
  simp [RoaringBitmap.runs, groupRuns, groupRunsFrom]

theorem iterRuns_singleton (fragment value : UInt32) :
    (⟨AList.singleton fragment (.partialRows {value})⟩ : RowAddrTreeMap).iterRuns = some [(fragment, value, value)] := by
  simp [iterRuns, iter_singleton, runs_singleton]

theorem insertRange_unbounded (map : RowAddrTreeMap) (startBound : Bound) :
    map.insertRange startBound .unbounded = none := by
  cases startBound <;> exact insertRangeLoop_last_fragment _ _ _ _ _

end Lance.Select.RowAddrTreeMap
