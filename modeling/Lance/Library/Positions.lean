import Mathlib.Data.List.Range
import Mathlib.Data.List.GetD
import Mathlib.Data.List.Find
import Mathlib.Data.Nat.Find
import Mathlib.Data.List.Perm.Basic
import Mathlib.Order.Basic
import Mathlib.Order.Interval.Finset.Nat
import Mathlib.Data.List.Sort
import Lance.Library.BinarySearch

/-! Positions in a list. `keepAt` is what a loop keeps that drops the values at
some positions; on a list cut in two, each half keeps its own. An increasing
list of positions that holds every position below `u` holds each at its own
index, which is how a scan of `0..n` against the positions repeated finds the
first position not among them. -/

namespace Lance.Library

universe u

variable {α : Type u}

/-- The values of `values`, numbered from `start`, whose numbers are not among `dropped`. -/
def keepAt (dropped : List Nat) (start : Nat) (values : List α) : List α :=
  ((values.zipIdx start).filter fun entry => entry.2 ∉ dropped).map Prod.fst

section KeepAt

variable {dropped : List Nat} {start : Nat}

@[simp] theorem keepAt_nil : keepAt dropped start ([] : List α) = [] := rfl

theorem keepAt_cons (value : α) (values : List α) :
    keepAt dropped start (value :: values) =
      (if start ∈ dropped then [] else [value]) ++ keepAt dropped (start + 1) values := by
  by_cases dropping : start ∈ dropped <;> simp [keepAt, List.zipIdx_cons, dropping]

theorem keepAt_append (xs ys : List α) :
    keepAt dropped start (xs ++ ys) = keepAt dropped start xs ++ keepAt dropped (start + xs.length) ys := by
  simp [keepAt, List.zipIdx_append, List.filter_append]

theorem keepAt_sublist (values : List α) : (keepAt dropped start values).Sublist values := by
  have kept := (List.filter_sublist (l := values.zipIdx start) (p := fun entry => decide (entry.2 ∉ dropped))).map
    Prod.fst
  rwa [List.zipIdx_map_fst] at kept

@[simp] theorem keepAt_nothing_dropped (values : List α) : keepAt [] start values = values := by
  simp [keepAt]

/-- Two lists of positions that agree on the numbers of the values keep the
same values, wherever the numbering starts. -/
theorem keepAt_congr {other : List Nat} {otherStart : Nat} {values : List α}
    (agree : ∀ i < values.length, (start + i ∈ dropped ↔ otherStart + i ∈ other)) :
    keepAt dropped start values = keepAt other otherStart values := by
  induction values generalizing start otherStart with
  | nil => rfl
  | cons value values ih =>
    have here : start ∈ dropped ↔ otherStart ∈ other := by simpa using agree 0 (by simp)
    have later : ∀ i < values.length, (start + 1 + i ∈ dropped ↔ otherStart + 1 + i ∈ other) := fun i inside => by
      simpa [Nat.add_assoc, Nat.add_comm 1] using agree (i + 1) (by simpa using inside)
    rw [keepAt_cons, keepAt_cons, ih later]
    by_cases dropping : start ∈ dropped
    · rw [if_pos dropping, if_pos (here.mp dropping)]
    · rw [if_neg dropping, if_neg (mt here.mpr dropping)]

theorem mem_keepAt {values : List α} {value : α} :
    value ∈ keepAt dropped start values ↔
      ∃ i, ∃ inside : i < values.length, start + i ∉ dropped ∧ values[i] = value := by
  simp only [keepAt, List.mem_map, List.mem_filter, Prod.exists, decide_eq_true_eq, exists_and_right,
    exists_eq_right, List.mk_mem_zipIdx_iff_le_and_getElem?_sub]
  constructor
  · rintro ⟨number, ⟨after, found⟩, kept⟩
    obtain ⟨inside, rfl⟩ := List.getElem?_eq_some_iff.mp found
    exact ⟨number - start, inside, by rwa [Nat.add_sub_cancel' after], rfl⟩
  · rintro ⟨i, inside, kept, rfl⟩
    exact ⟨start + i, ⟨Nat.le_add_right _ _, by simp [List.getElem?_eq_getElem inside]⟩, kept⟩

/-- Distinct positions, all among the values, each drop one value. -/
theorem length_keepAt {values : List α} (distinct : dropped.Nodup)
    (inside : ∀ p ∈ dropped, start ≤ p ∧ p < start + values.length) :
    (keepAt dropped start values).length + dropped.length = values.length := by
  have numbers : (values.zipIdx start).map Prod.snd = List.range' start values.length :=
    List.zipIdx_map_snd start values
  -- the numbers of the values dropped are the positions, in some order
  have numbersDistinct : (List.range' start values.length).Nodup := List.nodup_range'
  have matched : ((List.range' start values.length).filter fun i => decide (i ∈ dropped)).Perm dropped :=
    (List.perm_ext_iff_of_nodup (numbersDistinct.filter _) distinct).mpr fun p => by
      constructor
      · intro member
        exact of_decide_eq_true (List.mem_filter.mp member).2
      · intro member
        have bounds := inside p member
        exact List.mem_filter.mpr ⟨List.mem_range'_1.mpr ⟨bounds.1, bounds.2⟩, decide_eq_true member⟩
  have split := List.length_eq_length_filter_add (l := values.zipIdx start) fun entry => decide (entry.2 ∉ dropped)
  have droppedCount : ((values.zipIdx start).filter fun entry => !decide (entry.2 ∉ dropped)).length =
      dropped.length := by
    rw [← matched.length_eq, ← numbers, List.filter_map, List.length_map]
    congr 2
    funext entry
    simp
  rw [keepAt, List.length_map, ← droppedCount, ← split, List.length_zipIdx]

end KeepAt

/-! ### The first position an increasing list misses -/

section Missing

variable {positions : List Nat}

theorem add_le_getElem_of_increasing : ∀ {positions : List Nat} {low : Nat}, positions.Pairwise (· < ·) →
    (∀ p ∈ positions, low ≤ p) → ∀ i (inside : i < positions.length), low + i ≤ positions[i]
  | [], _, _, _, _, inside => absurd inside (Nat.not_lt_zero _)
  | first :: rest, low, increasing, above, i, inside => by
    obtain ⟨after, restIncreasing⟩ := List.pairwise_cons.mp increasing
    cases i with
    | zero => simpa using above first List.mem_cons_self
    | succ i =>
      have iInside : i < rest.length := by simpa using inside
      have later : low + 1 + i ≤ rest[i] := add_le_getElem_of_increasing restIncreasing
        (fun p member => Nat.lt_of_le_of_lt (above first List.mem_cons_self) (after p member)) i iInside
      simp only [List.getElem_cons_succ]
      omega

theorem getElem_eq_of_forall_lt_mem (increasing : positions.Pairwise (· < ·)) {bound : Nat}
    (below : ∀ j < bound, j ∈ positions) : ∀ i < bound, ∃ inside : i < positions.length, positions[i] = i := by
  intro i
  induction i using Nat.strong_induction_on with
  | _ i ih =>
    intro small
    obtain ⟨t, inside, found⟩ := List.mem_iff_getElem.mp (below i small)
    have atLeast := add_le_getElem_of_increasing increasing (fun _ _ => Nat.zero_le _) t inside
    -- an earlier index holds its own position, so `i` sits at index `i`
    have same : t = i := by
      by_contra differ
      obtain ⟨_, own⟩ := ih t (by omega) (by omega)
      omega
    subst same
    exact ⟨inside, found⟩

/-- Scanning `0..n` against increasing positions repeated, the first index that
differs from the position beside it is the first index the positions miss. -/
theorem find?_range_cycle (increasing : positions.Pairwise (· < ·)) {n : Nat}
    (nonempty : positions ≠ []) (fewer : positions.length < n) :
    ∃ first, (List.range n).find? (fun i => positions.getD (i % positions.length) 0 != i) = some first ∧
      first < n ∧ first ∉ positions ∧ ∀ j < first, j ∈ positions := by
  have some_missing : ∃ j, j < n ∧ j ∉ positions := by
    by_contra full
    push Not at full
    obtain ⟨inside', _⟩ := getElem_eq_of_forall_lt_mem increasing full (n - 1) (by omega)
    omega
  classical
  let first := Nat.find some_missing
  have firstSpec : first < n ∧ first ∉ positions := Nat.find_spec some_missing
  have earlier : ∀ j < first, j ∈ positions := fun j before => by
    by_contra missing
    exact Nat.find_min some_missing before ⟨by omega, missing⟩
  have atMost : first ≤ positions.length := by
    rcases Nat.eq_zero_or_pos first with zero | positive
    · omega
    · obtain ⟨inside', _⟩ := getElem_eq_of_forall_lt_mem increasing earlier (first - 1) (by omega)
      omega
  have length_pos : 0 < positions.length := List.length_pos_iff.mpr nonempty
  refine ⟨first, List.find?_range_eq_some.mpr ⟨?_, List.mem_range.mpr firstSpec.1, fun j before => ?_⟩,
    firstSpec.1, firstSpec.2, earlier⟩
  · rcases Nat.lt_or_ge first positions.length with short | full
    · -- the position beside it is another one
      rw [Nat.mod_eq_of_lt short, List.getD_eq_getElem _ _ short]
      have held : positions[first] ∈ positions := List.getElem_mem short
      simp only [bne_iff_ne, ne_eq]
      exact fun same => firstSpec.2 (same ▸ held)
    · -- every position is below it: the scan has come round to the first position, `0`
      have whole : first = positions.length := by omega
      obtain ⟨zeroInside, zeroAt⟩ := getElem_eq_of_forall_lt_mem increasing earlier 0 (by omega)
      rw [whole, Nat.mod_self, List.getD_eq_getElem _ _ zeroInside, zeroAt]
      simp only [bne_iff_ne, ne_eq]
      omega
  · obtain ⟨jInside, jAt⟩ := getElem_eq_of_forall_lt_mem increasing earlier j before
    rw [Nat.mod_eq_of_lt (by omega), List.getD_eq_getElem _ _ jInside, jAt]
    simp

/-- Scanning `n - 1` down to `0` against increasing positions reversed and
repeated, the first index whose position differs is the last index the
positions miss: the scan above, on the positions mirrored about `n - 1`. -/
theorem find?_range_cycle_reverse (increasing : positions.Pairwise (· < ·)) {n : Nat}
    (inside : ∀ p ∈ positions, p < n) (nonempty : positions ≠ []) (fewer : positions.length < n) :
    ∃ back, (List.range n).find? (fun j => positions.reverse.getD (j % positions.length) 0 != n - 1 - j) =
        some back ∧ back < n ∧ n - 1 - back ∉ positions ∧ ∀ i, n - 1 - back < i → i < n → i ∈ positions := by
  let mirrored := positions.reverse.map (n - 1 - ·)
  have mirroredIncreasing : mirrored.Pairwise (· < ·) := by
    refine List.pairwise_map.mpr (List.pairwise_reverse.mpr (increasing.imp_of_mem fun {a b} aIn bIn before => ?_))
    have := inside b bIn
    omega
  have sameLength : mirrored.length = positions.length := by simp [mirrored]
  obtain ⟨back, found, small, missing, earlier⟩ :=
    find?_range_cycle (n := n) mirroredIncreasing (by simpa [mirrored] using nonempty) (by omega)
  refine ⟨back, ?_, small, fun held => missing ?_, fun i after below => ?_⟩
  · rw [← found, sameLength]
    refine List.find?_congr fun j member => ?_
    have length_pos : 0 < positions.length := List.length_pos_iff.mpr nonempty
    have cycled : j % positions.length < positions.reverse.length := by
      simpa using Nat.mod_lt j length_pos
    have bounded := inside _ (List.mem_reverse.mp (List.getElem_mem cycled))
    have jSmall := List.mem_range.mp member
    rw [List.getD_eq_getElem _ _ cycled, List.getD_eq_getElem _ _ (by simpa [mirrored] using cycled),
      List.getElem_map, Bool.eq_iff_iff]
    simp only [bne_iff_ne, ne_eq]
    omega
  · exact List.mem_map.mpr ⟨n - 1 - back, List.mem_reverse.mpr held, by omega⟩
  · obtain ⟨p, held, mirror⟩ := List.mem_map.mp (earlier (n - 1 - i) (by omega))
    have := inside p (List.mem_reverse.mp held)
    obtain rfl : p = i := by omega
    exact List.mem_reverse.mp held

end Missing

/-! ### Increasing positions against a window `[low, high)` -/

section Window

variable {positions : List Nat}

theorem length_le_of_forall_lt (distinct : positions.Nodup) {bound : Nat} (below : ∀ p ∈ positions, p < bound) :
    positions.length ≤ bound := by
  rw [← List.toFinset_card_of_nodup distinct, ← Finset.card_range bound]
  exact Finset.card_le_card fun p mem => Finset.mem_range.mpr (below p (List.mem_toFinset.mp mem))

/-- Increasing positions that lie in a window as long as the list are the
window's positions in order. -/
theorem eq_range'_of_increasing (increasing : positions.Pairwise (· < ·)) {low : Nat}
    (inside : ∀ p ∈ positions, low ≤ p ∧ p < low + positions.length) :
    positions = List.range' low positions.length := by
  have distinct := increasing.nodup
  have subset : positions.toFinset ⊆ Finset.Ico low (low + positions.length) := fun p mem =>
    Finset.mem_Ico.mpr (inside p (List.mem_toFinset.mp mem))
  have filled : positions.toFinset = (List.range' low positions.length).toFinset := by
    rw [Finset.eq_of_subset_of_card_le subset (by rw [Nat.card_Ico, List.toFinset_card_of_nodup distinct]; omega)]
    ext p
    simp only [Finset.mem_Ico, List.mem_toFinset, List.mem_range'_1]
  have perm := List.perm_of_nodup_nodup_toFinset_eq distinct List.nodup_range' filled
  exact perm.eq_of_sortedLE (increasing.imp Nat.le_of_lt).sortedLE ((@List.pairwise_lt_range' low positions.length 1 Nat.one_pos).imp Nat.le_of_lt).sortedLE

/-- The counts of distinct positions below the two ends of a window differ by
the positions in the window. -/
theorem countP_lt_sub_countP_lt (distinct : positions.Nodup) {low high : Nat} (ordered : low ≤ high) :
    positions.countP (· < high) - positions.countP (· < low) = (positions.toFinset ∩ Finset.Ico low high).card := by
  have counted : ∀ bound, positions.countP (· < bound) = (positions.toFinset.filter (· < bound)).card := fun bound => by
    rw [List.countP_eq_length_filter, ← List.toFinset_card_of_nodup (distinct.filter _), List.toFinset_filter]
    simp only [decide_eq_true_eq]
  have below : positions.toFinset.filter (· < low) ⊆ positions.toFinset.filter (· < high) := fun p mem => by
    rw [Finset.mem_filter] at mem ⊢
    exact ⟨mem.1, by omega⟩
  rw [counted, counted, ← Finset.card_sdiff_of_subset below]
  congr 1
  ext p
  simp only [Finset.mem_sdiff, Finset.mem_filter, Finset.mem_inter, Finset.mem_Ico]
  constructor
  · rintro ⟨⟨mem, belowHigh⟩, notBelowLow⟩
    exact ⟨mem, Nat.not_lt.mp fun belowLow => notBelowLow ⟨mem, belowLow⟩, belowHigh⟩
  · rintro ⟨mem, fromLow, belowHigh⟩
    exact ⟨⟨mem, belowHigh⟩, fun ⟨_, belowLow⟩ => by omega⟩

theorem countP_lt_sub_countP_lt_eq_iff (distinct : positions.Nodup) {low high : Nat} (ordered : low ≤ high) :
    positions.countP (· < high) - positions.countP (· < low) = high - low ↔
      Finset.Ico low high ⊆ positions.toFinset := by
  rw [countP_lt_sub_countP_lt distinct ordered, ← Nat.card_Ico low high]
  constructor
  · intro same
    exact Finset.inter_eq_right.mp (Finset.eq_of_subset_of_card_le Finset.inter_subset_right same.ge)
  · intro held
    rw [Finset.inter_eq_right.mpr held]

/-- Among increasing positions the first one from `low` on decides whether any
falls in `[low, high)`. -/
theorem all_getElem?_countP_lt_iff (increasing : positions.Pairwise (· < ·)) (low high : Nat) :
    positions[positions.countP (· < low)]?.all (· ≥ high) = true ↔ ∀ p ∈ positions, ¬ (low ≤ p ∧ p < high) := by
  have cut := getElem_lt_iff_lt_countP increasing low
  by_cases inside : positions.countP (· < low) < positions.length
  · -- the position at the count is the first one from `low` on
    have first := (cut _ inside).not.mpr (Nat.lt_irrefl _)
    rw [List.getElem?_eq_getElem inside, Option.all_some, decide_eq_true_iff]
    constructor
    · intro above p mem
      obtain ⟨i, iInside, rfl⟩ := List.mem_iff_getElem.mp mem
      rcases Nat.lt_trichotomy i (positions.countP (· < low)) with early | same | late
      · have := (cut i iInside).mpr early
        omega
      · subst same
        omega
      · have := List.pairwise_iff_getElem.mp increasing _ _ inside iInside late
        omega
    · intro apart
      by_contra below
      exact apart _ (List.getElem_mem inside) ⟨by omega, by omega⟩
  · -- every position is below `low`
    have all := Nat.le_antisymm List.countP_le_length (Nat.not_lt.mp inside)
    rw [List.getElem?_eq_none (by omega), Option.all_none]
    simp only [true_iff]
    intro p mem
    obtain ⟨i, iInside, rfl⟩ := List.mem_iff_getElem.mp mem
    have := (cut i iInside).mpr (by omega)
    omega

end Window

/-! ### Positions held as `u32` -/

section Word

theorem beq_ofNat_eq {a : UInt32} {i : Nat} (small : i < 2 ^ 32) : (a == UInt32.ofNat i) = decide (a.toNat = i) := by
  have cast : (UInt32.ofNat i).toNat = i := by
    rw [UInt32.toNat_ofNat']
    exact Nat.mod_eq_of_lt small
  rw [Bool.eq_iff_iff, beq_iff_eq, decide_eq_true_iff, UInt32.ext_iff, cast]

theorem getD_bne_ofNat (positions : List UInt32) (m : Nat) {i : Nat} (small : i < 2 ^ 32) :
    (positions.getD m 0 != UInt32.ofNat i) = ((positions.map UInt32.toNat).getD m 0 != i) := by
  rw [bne, bne, beq_ofNat_eq small, Bool.beq_eq_decide_eq, List.getD_eq_getElem?_getD, List.getD_eq_getElem?_getD,
    List.getElem?_map]
  cases positions[m]? <;> simp

end Word

end Lance.Library
