import Lance.RowIds.Segment
import Lance.Library.SortedRun
import Lance.Library.OptionList

/-! `from_slice` stands for its input. On a list of distinct row ids every read
of the segment it builds (iteration, `len`, `get`, `position`, `contains` and
`range`) agrees with the list, whichever representation the cost model picks
and however wide the offsets of its array. Each representation is shown to
stand for the list it is built from; the cost model only chooses among them. -/

namespace Lance.RowIds

open Lance.Library

namespace U64Segment

open EncodedU64Array (Bounds fromVec)

/-- Every read of `segment` agrees with the list `vs`; an index is a `usize`. -/
structure Represents (segment : U64Segment) (vs : List UInt64) : Prop where
  iter_eq : segment.iter = some vs
  len_eq : segment.len = vs.length
  get_eq : ∀ i < 2 ^ 64, segment.get i = some vs[i]?
  position_getElem : ∀ i (inside : i < vs.length), segment.position vs[i] = some (some i)
  position_not_mem : ∀ x ∉ vs, segment.position x = some none
  contains_eq : ∀ x, segment.contains x = some (decide (x ∈ vs))
  valueRange_nil : vs = [] → segment.valueRange = some none
  valueRange_bounds : ∀ lo hi, Bounds vs lo hi → segment.valueRange = some (some (lo, hi))

/-! ### A range -/

theorem get_range (span : U64Range) {i : Nat} (small : i < 2 ^ 64) : (range span).get i = some span.values[i]? := by
  have index : (UInt64.ofNat i).toNat = i := UInt64.toNat_ofNat_of_lt' small
  have below := span.stop.toNat_lt
  simp only [get]
  cases added : checkedAdd span.start (UInt64.ofNat i) with
  | none =>
    have overflow := checkedAdd_eq_none.mp added
    rw [List.getElem?_eq_none (by simp; omega)]
  | some val =>
    obtain ⟨fits, rfl⟩ := checkedAdd_eq_some.mp added
    dsimp only
    have value := toNat_add_of_lt fits
    by_cases inside : i < span.values.length
    · have early : span.start + UInt64.ofNat i < span.stop := by
        simp only [U64Range.length_values] at inside
        rw [UInt64.lt_iff_toNat_lt, value]
        omega
      rw [if_pos early, List.getElem?_eq_getElem inside, U64Range.getElem_values]
    · have late : ¬span.start + UInt64.ofNat i < span.stop := by
        simp only [U64Range.length_values] at inside
        rw [UInt64.lt_iff_toNat_lt, value]
        omega
      rw [if_neg late, List.getElem?_eq_none (by omega)]

theorem valueRange_range (span : U64Range) (ordered : span.start ≤ span.stop) :
    (range span).valueRange = if span.values = [] then some none else some (some (span.start, span.stop - 1)) := by
  have empty : span.values = [] ↔ span.isEmpty = true := by
    rw [← List.length_eq_zero_iff, U64Range.length_values, U64Range.isEmpty, Bool.not_eq_true',
      decide_eq_false_iff_not, UInt64.lt_iff_toNat_lt]
    have := UInt64.le_iff_toNat_le.mp ordered
    omega
  by_cases none : span.values = []
  · simp [valueRange, none, empty.mp none]
  · simp [valueRange, none, mt empty.mpr none]

/-- A range stands for its values. -/
theorem represents_range (span : U64Range) (ordered : span.start ≤ span.stop) : Represents (range span) span.values where
  iter_eq := rfl
  len_eq := by simp [len, UInt64.toNat_sub_of_le _ _ ordered]
  get_eq _ small := get_range span small
  position_getElem i inside := by
    have member := List.getElem_mem inside
    simp [position, U64Range.contains_eq, member, U64Range.toNat_getElem_values_sub span inside]
  position_not_mem x outside := by simp [position, U64Range.contains_eq, outside]
  contains_eq x := by simp [contains, U64Range.contains_eq]
  valueRange_nil empty := by rw [valueRange_range span ordered, if_pos empty]
  valueRange_bounds lo hi bounds := by
    have nonempty := bounds.ne_nil
    have open_ : span.start < span.stop := by
      by_contra closed
      exact nonempty (List.eq_nil_of_length_eq_zero (by
        rw [U64Range.length_values]
        have := UInt64.lt_iff_toNat_lt.not.mp closed
        omega))
    have bounded := U64Range.mem_values_iff_le span open_
    have startMem : span.start ∈ span.values := (U64Range.mem_values span _).mpr ⟨UInt64.le_refl _, open_⟩
    have lastMem : span.stop - 1 ∈ span.values := (bounded _).mpr ⟨((bounded _).mp startMem).2, UInt64.le_refl _⟩
    rw [valueRange_range span ordered, if_neg nonempty,
      bounds.eq_of_least startMem fun v member => ((bounded v).mp member).1,
      bounds.eq_of_greatest lastMem fun v member => ((bounded v).mp member).2]

/-! ### Arrays -/

theorem le_of_head? {vs : List UInt64} (sorted : vs.Pairwise (· < ·)) {first : UInt64} (head : vs.head? = some first) :
    ∀ v ∈ vs, first ≤ v := by
  cases vs with
  | nil => cases head
  | cons a rest =>
    cases head
    intro v member
    rcases List.mem_cons.mp member with rfl | later
    · exact UInt64.le_refl _
    · exact UInt64.le_of_lt (List.rel_of_pairwise_cons sorted later)

theorem le_of_getLast? {vs : List UInt64} (sorted : vs.Pairwise (· < ·)) {top : UInt64} (last : vs.getLast? = some top) :
    ∀ v ∈ vs, v ≤ top := by
  obtain ⟨init, rfl⟩ := List.getLast?_eq_some_iff.mp last
  intro v member
  rcases List.mem_append.mp member with early | same
  · exact UInt64.le_of_lt ((List.pairwise_append.mp sorted).2.2 v early top (List.mem_singleton_self top))
  · rw [List.mem_singleton.mp same]
    exact UInt64.le_refl _

theorem represents_sortedArray {vs : List UInt64} (sorted : vs.Pairwise (· < ·)) (nonempty : vs ≠ []) :
    Represents (sortedArray (fromVec vs)) vs where
  iter_eq := by simp [iter]
  len_eq := by simp [len]
  get_eq _ _ := by simp [get, EncodedU64Array.get_eq]
  position_getElem i inside := by
    simp [position, EncodedU64Array.binarySearch_fromVec_of_sorted sorted, countP_lt_getElem sorted i inside]
  position_not_mem x outside := by
    simp [position, EncodedU64Array.binarySearch_fromVec_of_sorted sorted, outside]
  contains_eq x := by
    by_cases member : x ∈ vs <;>
      simp [contains, EncodedU64Array.binarySearch_fromVec_of_sorted sorted, member, Except.isOk, Except.toBool]
  valueRange_nil empty := absurd empty nonempty
  valueRange_bounds lo hi bounds := by
    obtain ⟨first, head⟩ := Option.ne_none_iff_exists'.mp (mt List.head?_eq_none_iff.mp nonempty)
    obtain ⟨top, last⟩ := Option.ne_none_iff_exists'.mp (mt List.getLast?_eq_none_iff.mp nonempty)
    rw [bounds.eq_of_least (List.mem_of_head? head) (le_of_head? sorted head),
      bounds.eq_of_greatest (List.mem_of_getLast? last) (le_of_getLast? sorted last)]
    simp [valueRange, EncodedU64Array.first_eq, EncodedU64Array.last_eq, head, last]

theorem represents_array {vs : List UInt64} (distinct : vs.Nodup) (nonempty : vs ≠ []) :
    Represents (array (fromVec vs)) vs where
  iter_eq := by simp [iter]
  len_eq := by simp [len]
  get_eq _ _ := by simp [get, EncodedU64Array.get_eq]
  position_getElem i inside := by
    simp only [position, EncodedU64Array.iter_fromVec, Option.some.injEq, List.findIdx?_eq_some_iff_getElem]
    refine ⟨inside, by simp, fun j early same => ?_⟩
    have := (distinct.getElem_inj_iff).mp (beq_iff_eq.mp same)
    omega
  position_not_mem x outside := by
    simp only [position, EncodedU64Array.iter_fromVec, Option.some.injEq, List.findIdx?_eq_none_iff]
    intro v member
    simpa using fun same : v = x => outside (same ▸ member)
  contains_eq x := by
    rw [contains, EncodedU64Array.iter_fromVec, Option.some.injEq, Bool.eq_iff_iff]
    simp
  valueRange_nil empty := absurd empty nonempty
  valueRange_bounds lo hi bounds := by
    simp [valueRange, EncodedU64Array.min_fromVec, EncodedU64Array.max_fromVec, bounds.min_eq, bounds.max_eq]

/-! ### Ranges with holes or a bitmap -/

/-- A strictly increasing list with least value `lo` and greatest `hi`, where
`hi + 1` is a `u64`, so that the range `lo..hi + 1` spans it. -/
structure Spread (vs : List UInt64) (lo hi : UInt64) : Prop where
  sorted : vs.Pairwise (· < ·)
  bounds : Bounds vs lo hi
  fits : hi.toNat + 1 < 2 ^ 64

/-- The range `lo..hi + 1`, as `from_stats_and_sequence` builds it from the
stats. -/
def spanOf (lo hi : UInt64) : U64Range := ⟨lo, hi + 1⟩

@[simp] theorem spanOf_start (lo hi : UInt64) : (spanOf lo hi).start = lo := rfl

@[simp] theorem spanOf_stop (lo hi : UInt64) : (spanOf lo hi).stop = hi + 1 := rfl

/-- The values of the span a list misses, which `holes_in_slice` collects. -/
def holesOf (vs : List UInt64) (lo hi : UInt64) : List UInt64 := (spanOf lo hi).values.filter (· ∉ vs)

namespace Spread

variable {vs : List UInt64} {lo hi : UInt64}

theorem toNat_end (spread : Spread vs lo hi) : (hi + 1).toNat = hi.toNat + 1 :=
  toNat_add_of_lt (by simpa using spread.fits)

theorem nonempty (spread : Spread vs lo hi) : lo < hi + 1 := by
  obtain ⟨v, member⟩ := List.exists_mem_of_ne_nil _ spread.bounds.ne_nil
  have low := UInt64.le_iff_toNat_le.mp (spread.bounds.low v member)
  have high := UInt64.le_iff_toNat_le.mp (spread.bounds.high v member)
  rw [UInt64.lt_iff_toNat_lt, spread.toNat_end]
  omega

theorem mem_span (spread : Spread vs lo hi) {v : UInt64} (member : v ∈ vs) : v ∈ (spanOf lo hi).values := by
  rw [U64Range.mem_values_iff_le _ spread.nonempty]
  exact ⟨spread.bounds.low v member, by simpa using spread.bounds.high v member⟩

theorem eq_filter (spread : Spread vs lo hi) : vs = (spanOf lo hi).values.filter (· ∈ vs) :=
  eq_filter_of_subset (U64Range.pairwise_values _) spread.sorted fun _ => spread.mem_span

theorem mem_holes {x : UInt64} :
    x ∈ holesOf vs lo hi ↔ x ∈ (spanOf lo hi).values ∧ x ∉ vs := by
  simp [holesOf]

theorem holes_sorted : (holesOf vs lo hi).Pairwise (· < ·) :=
  (U64Range.pairwise_values _).filter _

theorem length_span (spread : Spread vs lo hi) :
    (spanOf lo hi).values.length = vs.length + (holesOf vs lo hi).length := by
  have split := List.length_eq_length_filter_add (l := (spanOf lo hi).values) (fun a => decide (a ∈ vs))
  rw [← spread.eq_filter] at split
  simpa only [decide_not, holesOf] using split

theorem toNat_of_mem (spread : Spread vs lo hi) {x : UInt64} (member : x ∈ (spanOf lo hi).values) :
    x.toNat = lo.toNat + vs.countP (· < x) + (holesOf vs lo hi).countP (· < x) := by
  obtain ⟨j, inside, rfl⟩ := List.getElem_of_mem member
  have below := List.countP_eq_countP_filter_add (spanOf lo hi).values
    (· < (spanOf lo hi).values[j]) (fun a => decide (a ∈ vs))
  rw [countP_lt_getElem (U64Range.pairwise_values _) j inside, ← spread.eq_filter] at below
  rw [U64Range.toNat_getElem_values _ inside]
  simp only [decide_not, holesOf, spanOf_start] at below ⊢
  omega

theorem toNat_span (spread : Spread vs lo hi) : (hi + 1 - lo).toNat = (spanOf lo hi).values.length := by
  rw [U64Range.length_values, spanOf_start, spanOf_stop, UInt64.toNat_sub_of_le _ _ (UInt64.le_of_lt spread.nonempty)]

theorem usizeSub_holes (spread : Spread vs lo hi) :
    usizeSub (hi + 1 - lo).toNat (holesOf vs lo hi).length = vs.length := by
  have span := spread.length_span
  have low := UInt64.le_iff_toNat_le.mp (UInt64.le_of_lt spread.nonempty)
  have fits := spread.fits
  simp only [U64Range.length_values, spanOf_start, spanOf_stop, spread.toNat_end] at span low
  rw [UInt64.toNat_sub_of_le _ _ (UInt64.le_of_lt spread.nonempty), spread.toNat_end,
    usizeSub_of_le (by omega) (by omega)]
  omega

theorem valueRange_eq (spread : Spread vs lo hi) {lo' hi' : UInt64} (bounds : Bounds vs lo' hi') :
    (some (some (lo, hi + 1 - 1)) : Option (Option (UInt64 × UInt64))) = some (some (lo', hi')) := by
  obtain ⟨rfl, rfl⟩ := spread.bounds.unique bounds
  simp

theorem getElem_eq (spread : Spread vs lo hi) {i : Nat} (inside : i < vs.length) :
    vs[i] = lo + UInt64.ofNat i + UInt64.ofNat ((holesOf vs lo hi).countP (· < vs[i])) := by
  have place := spread.toNat_of_mem (spread.mem_span (List.getElem_mem inside))
  rw [countP_lt_getElem spread.sorted i inside] at place
  have bound := vs[i].toNat_lt
  have first : (lo + UInt64.ofNat i).toNat = lo.toNat + i := toNat_add_ofNat (by omega)
  apply UInt64.toNat_inj.mp
  rw [toNat_add_ofNat (by rw [first]; omega), first]
  omega

/-- `holes[k] - k` passes `lo + i` exactly from the `k` that counts the holes
below the `i`-th value on. -/
theorem target_lt_iff (spread : Spread vs lo hi) {i k : Nat} (inside : i < vs.length)
    (hole : k < (holesOf vs lo hi).length) :
    saturatingSub (holesOf vs lo hi)[k] (UInt64.ofNat k) > lo + UInt64.ofNat i ↔
      (holesOf vs lo hi).countP (· < vs[i]) ≤ k := by
  have member := mem_holes.mp (List.getElem_mem hole)
  have place := spread.toNat_of_mem member.1
  rw [countP_lt_getElem holes_sorted k hole] at place
  have apart : (holesOf vs lo hi)[k].toNat ≠ vs[i].toNat := fun same =>
    member.2 (UInt64.toNat_inj.mp same ▸ List.getElem_mem inside)
  have room : lo.toNat + i < 2 ^ 64 := by
    have span := spread.length_span
    have low := UInt64.le_iff_toNat_le.mp (UInt64.le_of_lt spread.nonempty)
    have fits := spread.fits
    simp only [U64Range.length_values, spanOf_start, spanOf_stop, spread.toNat_end] at span low
    omega
  have small : k < 2 ^ 64 := by
    have := (holesOf vs lo hi)[k].toNat_lt
    omega
  rw [GT.gt, UInt64.lt_iff_toNat_lt, toNat_saturatingSub, toNat_add_ofNat room, UInt64.toNat_ofNat_of_lt' small]
  calc lo.toNat + i < (holesOf vs lo hi)[k].toNat - k ↔ i < vs.countP (· < (holesOf vs lo hi)[k]) := by
        rw [place]
        omega
    _ ↔ vs[i] < (holesOf vs lo hi)[k] := (getElem_lt_iff_lt_countP spread.sorted (holesOf vs lo hi)[k] i inside).symm
    _ ↔ ¬(holesOf vs lo hi)[k] < vs[i] := by
        rw [UInt64.lt_iff_toNat_lt, UInt64.lt_iff_toNat_lt]
        omega
    _ ↔ ¬k < (holesOf vs lo hi).countP (· < vs[i]) := not_congr (getElem_lt_iff_lt_countP holes_sorted _ k hole)
    _ ↔ (holesOf vs lo hi).countP (· < vs[i]) ≤ k := Nat.not_lt

end Spread


section Holes

variable {vs : List UInt64} {lo hi : UInt64}

theorem get_rangeWithHoles (spread : Spread vs lo hi) (i : Nat) :
    (rangeWithHoles (spanOf lo hi) (fromVec (holesOf vs lo hi))).get i = some vs[i]? := by
  simp only [get, spanOf_start, spanOf_stop, EncodedU64Array.len_fromVec, spread.usizeSub_holes]
  split_ifs with past
  · rw [List.getElem?_eq_none past]
  · have inside : i < vs.length := Nat.lt_of_not_le past
    -- the probe holds exactly below the count of holes under the `i`-th value
    have point : partitionPoint 0 (holesOf vs lo hi).length
        (fun k => ((fromVec (holesOf vs lo hi)).get k).all
          fun h => !(saturatingSub h (UInt64.ofNat k) > lo + UInt64.ofNat i)) =
        (holesOf vs lo hi).countP (· < vs[i]) := by
      apply partitionPoint_eq_of_cut (Nat.zero_le _) List.countP_le_length
      · intro k _ below
        have hole : k < (holesOf vs lo hi).length := Nat.lt_of_lt_of_le below List.countP_le_length
        simp [EncodedU64Array.get_eq, List.getElem?_eq_getElem hole, (spread.target_lt_iff inside hole).not.mpr (by omega)]
      · intro k above hole
        simp [EncodedU64Array.get_eq, List.getElem?_eq_getElem hole, (spread.target_lt_iff inside hole).mpr above]
    rw [partitionPoint, Nat.sub_zero] at point
    rw [holesSearchLoop_eq _ _ _ 0 _ (Nat.zero_le _) (by simp), point, Option.map_some,
      List.getElem?_eq_getElem inside, ← spread.getElem_eq inside]

theorem position_rangeWithHoles (spread : Spread vs lo hi) (x : UInt64) :
    (rangeWithHoles (spanOf lo hi) (fromVec (holesOf vs lo hi))).position x =
      some (if x ∈ vs then some (vs.countP (· < x)) else none) := by
  simp only [position, U64Range.contains_eq, EncodedU64Array.binarySearch_fromVec_of_sorted Spread.holes_sorted]
  by_cases inSpan : x ∈ (spanOf lo hi).values
  · by_cases member : x ∈ vs
    · -- a value: its offset less the holes below it
      have notHole : x ∉ holesOf vs lo hi := fun hole => (Spread.mem_holes.mp hole).2 member
      have place := spread.toNat_of_mem inSpan
      have low : lo ≤ x := ((U64Range.mem_values _ x).mp inSpan).1
      have offset : (x - lo).toNat = vs.countP (· < x) + (holesOf vs lo hi).countP (· < x) := by
        rw [UInt64.toNat_sub_of_le _ _ low]
        omega
      have small := x.toNat_lt
      simp only [inSpan, decide_true, Bool.not_true, Bool.false_eq_true, if_false, notHole, member, if_true,
        spanOf_start, offset]
      rw [usizeSub_of_le (by omega) (by omega), Nat.add_sub_cancel]
    · have hole : x ∈ holesOf vs lo hi := Spread.mem_holes.mpr ⟨inSpan, member⟩
      simp [inSpan, hole, member]
  · have member : x ∉ vs := fun member => inSpan (spread.mem_span member)
    simp [inSpan, member]

theorem contains_rangeWithHoles (spread : Spread vs lo hi) (x : UInt64) :
    (rangeWithHoles (spanOf lo hi) (fromVec (holesOf vs lo hi))).contains x = some (decide (x ∈ vs)) := by
  simp only [contains, U64Range.contains_eq, EncodedU64Array.iter_fromVec]
  by_cases inSpan : x ∈ (spanOf lo hi).values
  · by_cases member : x ∈ vs
    · have notHole : x ∉ holesOf vs lo hi := fun hole => (Spread.mem_holes.mp hole).2 member
      simp only [inSpan, member, decide_true, Bool.not_true, Bool.false_eq_true, if_false, Option.some.injEq,
        Bool.not_eq_eq_eq_not, Bool.not_true, List.any_eq_false, beq_iff_eq]
      intro other hole same
      exact notHole (same ▸ hole)
    · have hole : x ∈ holesOf vs lo hi := Spread.mem_holes.mpr ⟨inSpan, member⟩
      simp [inSpan, member, hole]
  · have member : x ∉ vs := fun member => inSpan (spread.mem_span member)
    simp [inSpan, member]

theorem represents_rangeWithHoles (spread : Spread vs lo hi) :
    Represents (rangeWithHoles (spanOf lo hi) (fromVec (holesOf vs lo hi))) vs where
  iter_eq := by
    simp only [iter, EncodedU64Array.binarySearch_fromVec_of_sorted Spread.holes_sorted, Option.some.injEq]
    conv_rhs => rw [spread.eq_filter]
    apply List.filter_congr
    intro x inSpan
    by_cases member : x ∈ vs
    · have notHole : x ∉ holesOf vs lo hi := fun hole => (Spread.mem_holes.mp hole).2 member
      simp [notHole, member, Except.isOk, Except.toBool]
    · have hole : x ∈ holesOf vs lo hi := Spread.mem_holes.mpr ⟨inSpan, member⟩
      simp [hole, member, Except.isOk, Except.toBool]
  len_eq := by simp [len, spread.usizeSub_holes]
  get_eq i _ := get_rangeWithHoles spread i
  position_getElem i inside := by
    rw [position_rangeWithHoles spread, if_pos (List.getElem_mem inside), countP_lt_getElem spread.sorted i inside]
  position_not_mem x outside := by rw [position_rangeWithHoles spread, if_neg outside]
  contains_eq := contains_rangeWithHoles spread
  valueRange_nil empty := absurd empty spread.bounds.ne_nil
  valueRange_bounds _ _ bounds := spread.valueRange_eq bounds

end Holes


section Bitmap

variable {vs : List UInt64} {lo hi : UInt64}

/-- The bits a range with a bitmap keeps: one per value of the span, set when
the list holds it, then the clear padding of the last byte. -/
def spanBits (vs : List UInt64) (lo hi : UInt64) : List Bool :=
  (spanOf lo hi).values.map (fun a => decide (a ∈ vs)) ++
    List.replicate (8 * (((spanOf lo hi).values.length + 7) / 8) - (spanOf lo hi).values.length) false

theorem mem_offsets {j : Nat} (inside : j < (spanOf lo hi).values.length) :
    j ∈ (holesOf vs lo hi).map (fun hole => (hole - lo).toNat) ↔ (spanOf lo hi).values[j] ∉ vs := by
  have offset := U64Range.toNat_getElem_values_sub (spanOf lo hi) inside
  rw [spanOf_start] at offset
  constructor
  · intro offsetMember
    obtain ⟨hole, member, same⟩ := List.mem_map.mp offsetMember
    obtain ⟨inSpan, missing⟩ := Spread.mem_holes.mp member
    obtain ⟨m, found, rfl⟩ := List.getElem_of_mem inSpan
    have holeOffset := U64Range.toNat_getElem_values_sub (spanOf lo hi) found
    rw [spanOf_start, same] at holeOffset
    subst holeOffset
    exact missing
  · intro missing
    exact List.mem_map.mpr ⟨_, Spread.mem_holes.mpr ⟨List.getElem_mem inside, missing⟩, offset⟩

theorem Spread.le (spread : Spread vs lo hi) : lo ≤ hi := by
  obtain ⟨v, member⟩ := List.exists_mem_of_ne_nil _ spread.bounds.ne_nil
  exact UInt64.le_trans (spread.bounds.low v member) (spread.bounds.high v member)

/-- The bitmap of the span with the holes cleared keeps the span's bits. -/
theorem bitmapWithout_eq (spread : Spread vs lo hi) (count : Nat) (flag : Bool) :
    ∃ bitmap, bitmapWithout ⟨lo, hi, count, flag⟩ (holesOf vs lo hi) = some bitmap ∧
      bitmap.len = (spanOf lo hi).values.length ∧ bitmap.bits = spanBits vs lo hi := by
  have size : (hi - lo).toNat + 1 = (spanOf lo hi).values.length := by
    rw [U64Range.length_values, spanOf_start, spanOf_stop, spread.toNat_end, UInt64.toNat_sub_of_le _ _ spread.le]
    have := UInt64.le_iff_toNat_le.mp spread.le
    omega
  have reach : ∀ hole ∈ holesOf vs lo hi, (hole - lo).toNat < (Bitmap.newFull ((hi - lo).toNat + 1)).bits.length := by
    intro hole member
    obtain ⟨j, inside, rfl⟩ := List.getElem_of_mem (Spread.mem_holes.mp member).1
    have offset := U64Range.toNat_getElem_values_sub (spanOf lo hi) inside
    rw [spanOf_start] at offset
    rw [offset, Bitmap.bits_newFull, List.length_append, List.length_replicate, size]
    omega
  obtain ⟨bitmap, run, sameLen, cleared⟩ :=
    Bitmap.foldlM_clear (fun hole => (hole - lo).toNat) (holesOf vs lo hi) _ reach
  refine ⟨bitmap, run, by rw [sameLen, Bitmap.len_newFull, size], ?_⟩
  apply List.ext_getElem?
  intro j
  rw [cleared, Bitmap.bits_newFull, size, spanBits]
  by_cases inside : j < (spanOf lo hi).values.length
  · -- a value of the span: set unless it is a hole
    rw [List.getElem?_append_left (by simpa using inside), List.getElem?_append_left (by simpa using inside),
      List.getElem?_replicate_of_lt inside, List.getElem?_map, List.getElem?_eq_getElem inside, Option.map_some,
      Option.map_some]
    simp [mem_offsets inside]
  · -- the padding stays clear
    have past : (spanOf lo hi).values.length ≤ j := Nat.le_of_not_lt inside
    rw [List.getElem?_append_right (by simpa using past), List.getElem?_append_right (by simpa using past),
      List.length_replicate, List.length_map, List.getElem?_replicate]
    split <;> simp

section Built

variable {bitmap : Bitmap}

theorem count_spanBits (spread : Spread vs lo hi) : (spanBits vs lo hi).count true = vs.length := by
  rw [spanBits, List.count_append, count_map_mem (U64Range.pairwise_values _) spread.sorted fun _ => spread.mem_span,
    List.count_replicate]
  simp

theorem get_offset (bits_eq : bitmap.bits = spanBits vs lo hi) {x : UInt64} (inSpan : x ∈ (spanOf lo hi).values) :
    bitmap.get (x - lo).toNat = some (decide (x ∈ vs)) := by
  obtain ⟨j, inside, rfl⟩ := List.getElem_of_mem inSpan
  have offset := U64Range.toNat_getElem_values_sub (spanOf lo hi) inside
  rw [spanOf_start] at offset
  rw [Bitmap.get_eq, bits_eq, offset, spanBits, List.getElem?_append_left (by simpa using inside), List.getElem?_map,
    List.getElem?_eq_getElem inside, Option.map_some]

theorem position_rangeWithBitmap (spread : Spread vs lo hi) (bits_eq : bitmap.bits = spanBits vs lo hi) (x : UInt64) :
    (rangeWithBitmap (spanOf lo hi) bitmap).position x = some (if x ∈ vs then some (vs.countP (· < x)) else none) := by
  simp only [position, U64Range.contains_eq]
  by_cases inSpan : x ∈ (spanOf lo hi).values
  · by_cases member : x ∈ vs
    · -- the offset less the clear bits before it
      obtain ⟨j, inside, rfl⟩ := List.getElem_of_mem inSpan
      have offset := U64Range.toNat_getElem_values_sub (spanOf lo hi) inside
      rw [spanOf_start] at offset
      have before : (((bitmap.bits.drop 0).take j).count true) = vs.countP (· < (spanOf lo hi).values[j]) := by
        rw [List.drop_zero, bits_eq, spanBits, List.take_append_of_le_length (by rw [List.length_map]; exact inside.le),
          count_take_map_mem (U64Range.pairwise_values _) spread.sorted (fun _ => spread.mem_span) inside]
      have fewer : vs.countP (· < (spanOf lo hi).values[j]) ≤ j := by
        have place := spread.toNat_of_mem inSpan
        rw [U64Range.toNat_getElem_values _ inside, spanOf_start] at place
        omega
      have room : j ≤ bitmap.bits.length := by
        rw [bits_eq, spanBits, List.length_append, List.length_map]
        omega
      have window : (bitmap.slice 0 j).countZeros = some (usizeSub j (vs.countP (· < (spanOf lo hi).values[j]))) := by
        rw [Bitmap.BitmapSlice.countZeros_eq _ (by simpa [Bitmap.slice] using room)]
        simp only [Bitmap.slice, before]
      have present : bitmap.get j = some true := by
        rw [← offset, get_offset bits_eq inSpan, decide_eq_true member]
      have small : j < 2 ^ 64 := by
        have := (spanOf lo hi).values[j].toNat_lt
        have := U64Range.toNat_getElem_values _ inside
        omega
      simp only [inSpan, decide_true, if_true, spanOf_start, offset, present, window, member,
        Option.bind_eq_bind, Option.bind_some, Option.pure_def]
      rw [usizeSub_of_le small fewer, usizeSub_of_le small (Nat.sub_le _ _), Nat.sub_sub_self fewer]
    · simp [inSpan, member, get_offset bits_eq inSpan]
  · have member : x ∉ vs := fun member => inSpan (spread.mem_span member)
    simp [inSpan, member]

/-- A range with a bitmap of the span's bits stands for the list. -/
theorem represents_rangeWithBitmap (spread : Spread vs lo hi) (len_eq : bitmap.len = (spanOf lo hi).values.length)
    (bits_eq : bitmap.bits = spanBits vs lo hi) : Represents (rangeWithBitmap (spanOf lo hi) bitmap) vs where
  iter_eq := by
    simp only [iter, spanOf_start]
    rw [filterM_eq_some (fun a => decide (a ∈ vs)) fun x inSpan => get_offset bits_eq inSpan, ← spread.eq_filter]
  len_eq := by
    have fewer : vs.length ≤ (spanOf lo hi).values.length := by
      rw [spread.length_span]
      exact Nat.le_add_right _ _
    have fits : (spanOf lo hi).values.length < 2 ^ 64 := by
      rw [← spread.toNat_span]
      exact UInt64.toNat_lt _
    simp only [len, spanOf_start, spanOf_stop, Bitmap.countZeros_eq, len_eq, bits_eq, count_spanBits spread,
      spread.toNat_span]
    rw [usizeSub_of_le fits fewer, usizeSub_of_le fits (Nat.sub_le _ _), Nat.sub_sub_self fewer]
  get_eq i _ := by
    have select := selectLoop_eq lo bitmap.data 0 i
    rw [← Bitmap.bits, bits_eq, spanBits] at select
    simp only [get, spanOf_start, select, Nat.zero_mul, Nat.zero_add]
    by_cases inside : i < vs.length
    · obtain ⟨j, found, selected, same⟩ :=
        nthTrue_map_mem (U64Range.pairwise_values _) spread.sorted (fun _ => spread.mem_span) _ inside
      rw [selected, Option.map_some, List.getElem?_eq_getElem inside, ← same, U64Range.getElem_values, spanOf_start]
    · rw [nthTrue_map_mem_of_le (U64Range.pairwise_values _) spread.sorted (fun _ => spread.mem_span) _
        (Nat.le_of_not_lt inside), List.getElem?_eq_none (Nat.le_of_not_lt inside)]
      rfl
  position_getElem i inside := by
    rw [position_rangeWithBitmap spread bits_eq, if_pos (List.getElem_mem inside),
      countP_lt_getElem spread.sorted i inside]
  position_not_mem x outside := by rw [position_rangeWithBitmap spread bits_eq, if_neg outside]
  contains_eq x := by
    simp only [contains, U64Range.contains_eq]
    by_cases inSpan : x ∈ (spanOf lo hi).values
    · simp [inSpan, get_offset bits_eq inSpan]
    · have member : x ∉ vs := fun member => inSpan (spread.mem_span member)
      simp [inSpan, member]
  valueRange_nil empty := absurd empty spread.bounds.ne_nil
  valueRange_bounds _ _ bounds := spread.valueRange_eq bounds

end Built

end Bitmap

/-! ### The choice of `from_slice` -/

theorem Spread.nHoles_eq {vs : List UInt64} {lo hi : UInt64} (spread : Spread vs lo hi) (flag : Bool) :
    SegmentStats.nHoles ⟨lo, hi, vs.length, flag⟩ = (holesOf vs lo hi).length := by
  have span := spread.length_span
  have low := UInt64.le_iff_toNat_le.mp spread.le
  have fits := spread.fits
  simp only [U64Range.length_values, spanOf_start, spanOf_stop, spread.toNat_end] at span
  simp only [SegmentStats.nHoles, List.length_eq_zero_iff, spread.bounds.ne_nil, if_false]
  rw [u128Sub_of_le (by omega) (by omega)]
  omega

theorem Spread.holesInSlice_eq {vs : List UInt64} {lo hi : UInt64} (spread : Spread vs lo hi) :
    holesInSlice (inclusiveValues lo hi) vs = holesOf vs lo hi := by
  have distinct : (spanOf lo hi).values.Nodup := (U64Range.pairwise_values _).imp UInt64.ne_of_lt
  have sub : vs.Sublist (spanOf lo hi).values := spread.eq_filter ▸ List.filter_sublist
  rw [inclusiveValues_eq spread.fits]
  exact holesInSlice_eq_filter _ _ distinct sub

/-- On the stats of a strictly increasing list, `from_stats_and_sequence`
builds a segment that stands for the list, whichever it chooses. -/
theorem fromStatsAndSequence_sorted {vs : List UInt64} {lo hi : UInt64} (sorted : vs.Pairwise (· < ·))
    (bounds : Bounds vs lo hi) :
    ∃ segment, fromStatsAndSequence ⟨lo, hi, vs.length, true⟩ vs = some segment ∧ Represents segment vs := by
  have nonempty := bounds.ne_nil
  have counted : vs.length ≠ 0 := fun empty => nonempty (List.eq_nil_of_length_eq_zero empty)
  cases ending : checkedAdd hi 1 with
  | none =>
    -- `hi` is `u64::MAX`: no range can end past it
    refine ⟨sortedArray (fromVec vs), ?_, represents_sortedArray sorted nonempty⟩
    simp [fromStatsAndSequence, ending, counted]
  | some stop =>
    obtain ⟨fits, rfl⟩ := checkedAdd_eq_some.mp ending
    have spread : Spread vs lo hi := ⟨sorted, bounds, by simpa using fits⟩
    by_cases noHoles : (holesOf vs lo hi).length = 0
    · -- the list fills its span
      have full : vs = (spanOf lo hi).values := by
        rw [spread.eq_filter, List.filter_eq_self]
        intro a inSpan
        by_contra missing
        exact absurd noHoles (List.length_pos_of_mem (Spread.mem_holes.mpr ⟨inSpan, by simpa using missing⟩)).ne'
      refine ⟨range (spanOf lo hi), ?_, full ▸ represents_range _ (UInt64.le_of_lt spread.nonempty)⟩
      simp [fromStatsAndSequence, counted, ending, spread.nHoles_eq, noHoles]
      rfl
    · have sortedHoles :
          (holesInSlice (inclusiveValues lo hi) vs).mergeSort (fun a b => decide (a ≤ b)) = holesOf vs lo hi := by
        rw [spread.holesInSlice_eq]
        exact List.mergeSort_of_pairwise (Spread.holes_sorted.imp fun lt => decide_eq_true (UInt64.le_of_lt lt))
      simp only [fromStatsAndSequence, ↓reduceIte, counted, spread.nHoles_eq, noHoles, ending, Option.isSome_some,
        and_true, inf_eq_left, le_inf_iff, sortedHoles]
      split_ifs
      · exact ⟨_, rfl, represents_rangeWithHoles spread⟩
      · obtain ⟨bitmap, built, len_eq, bits_eq⟩ := bitmapWithout_eq spread vs.length true
        rw [spread.holesInSlice_eq, built]
        exact ⟨_, rfl, represents_rangeWithBitmap spread len_eq bits_eq⟩
      · exact ⟨_, rfl, represents_sortedArray sorted nonempty⟩

theorem represents_fromSlice {vs : List UInt64} (distinct : vs.Nodup) :
    ∃ segment, fromSlice vs = some segment ∧ Represents segment vs := by
  rcases eq_or_ne vs [] with empty | nonempty
  · subst empty
    exact ⟨range ⟨0, 0⟩, rfl, represents_range ⟨0, 0⟩ (UInt64.le_refl _)⟩
  obtain ⟨lo, hi, bounds⟩ := EncodedU64Array.bounds_of_ne_nil nonempty
  obtain ⟨flag, stats, ordered⟩ := computeStats_of_bounds bounds
  rw [fromSlice, stats]
  cases flag with
  | false => exact ⟨_, rfl, represents_array distinct nonempty⟩
  | true =>
    -- the order flag stays up on a list that never goes down; distinct, it strictly increases
    have sorted : vs.Pairwise (· < ·) :=
      ((ordered rfl).and distinct).imp fun ⟨le, ne⟩ => UInt64.lt_of_le_of_ne le ne
    exact fromStatsAndSequence_sorted sorted bounds

/-- `from_slice` on distinct row ids builds a segment, whichever representation
and width it picks, whose every read agrees with the list; iterating it
backwards yields the list reversed. -/
theorem fromSlice_represents (vs : List UInt64) (distinct : vs.Nodup) :
    ∃ segment, fromSlice vs = some segment ∧ Represents segment vs ∧
      segment.iter.map List.reverse = some vs.reverse := by
  obtain ⟨segment, run, represents⟩ := represents_fromSlice distinct
  exact ⟨segment, run, represents, by rw [represents.iter_eq, Option.map_some]⟩

theorem fromSlice_represents_at_gaps : [3, 5, 6].Nodup ∧
    ∃ segment, fromSlice [3, 5, 6] = some segment ∧ Represents segment [3, 5, 6] ∧
      segment.iter.map List.reverse = some [6, 5, 3] :=
  ⟨by decide, fromSlice_represents [3, 5, 6] (by decide)⟩

end U64Segment

end Lance.RowIds
