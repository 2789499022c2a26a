import Lance.Library.BinarySearch
import Lance.Library.ByteBits
import Mathlib.Data.List.Sort

/-! A strictly increasing list whose members all lie in a strictly increasing
run, seen from the run: the list is the run filtered by membership, and over
the run the bits "is a member" count the list's elements below each position
and have the list's `i`-th element at their `i`-th set bit. -/

namespace Lance.Library

universe u

variable {α : Type u} [LT α] [LE α] [Std.IsLinearOrder α] [Std.LawfulOrderLT α] [DecidableEq α]

instance ltIrrefl : Std.Irrefl (α := α) (· < ·) := ⟨fun _ => Std.lt_irrefl⟩

instance ltAntisymm : Std.Antisymm (α := α) (· < ·) := ⟨fun _ _ below above => absurd (Std.lt_trans below above) Std.lt_irrefl⟩

variable {run xs : List α}

theorem eq_filter_of_subset (runSorted : run.Pairwise (· < ·)) (sorted : xs.Pairwise (· < ·))
    (subset : ∀ x ∈ xs, x ∈ run) : xs = run.filter (· ∈ xs) := by
  apply sorted.eq_of_mem_iff (runSorted.filter _)
  intro a
  simp only [List.mem_filter, decide_eq_true_eq]
  exact ⟨fun member => ⟨subset a member, member⟩, And.right⟩

theorem count_map_mem (runSorted : run.Pairwise (· < ·)) (sorted : xs.Pairwise (· < ·))
    (subset : ∀ x ∈ xs, x ∈ run) : (run.map fun a => decide (a ∈ xs)).count true = xs.length := by
  conv_rhs => rw [eq_filter_of_subset runSorted sorted subset]
  rw [List.count, List.countP_map, List.countP_eq_length_filter]
  simp [Function.comp_def]

theorem nthTrue_map_mem_of_le (runSorted : run.Pairwise (· < ·)) (sorted : xs.Pairwise (· < ·))
    (subset : ∀ x ∈ xs, x ∈ run) (pad : Nat) {i : Nat} (past : xs.length ≤ i) :
    nthTrue ((run.map fun a => decide (a ∈ xs)) ++ List.replicate pad false) i = none := by
  rw [nthTrue_eq_none_iff, List.count_append, count_map_mem runSorted sorted subset, List.count_replicate]
  simp [past]

variable [DecidableRel (α := α) (· < ·)]

omit [DecidableEq α] in
/-- The first `j` elements of a strictly increasing run are those below its
`j`-th. -/
theorem take_eq_filter_lt (runSorted : run.Pairwise (· < ·)) {j : Nat} (inside : j < run.length) :
    run.take j = run.filter (· < run[j]) := by
  apply (runSorted.sublist (List.take_sublist _ _)).eq_of_mem_iff (runSorted.filter _)
  intro a
  rw [List.mem_take_iff_getElem, List.mem_filter, decide_eq_true_eq, List.mem_iff_getElem]
  constructor
  · rintro ⟨k, early, rfl⟩
    exact ⟨⟨k, by omega, rfl⟩, List.pairwise_iff_getElem.mp runSorted _ _ (by omega) inside (by omega)⟩
  · rintro ⟨⟨k, kInside, rfl⟩, below⟩
    refine ⟨k, ?_, rfl⟩
    -- a later element, or the `j`-th itself, is not below the `j`-th
    rcases Nat.lt_trichotomy k j with early | same | late
    · omega
    · subst same
      exact absurd below Std.lt_irrefl
    · exact absurd (Std.lt_trans below (List.pairwise_iff_getElem.mp runSorted _ _ inside kInside late))
        Std.lt_irrefl
theorem count_take_map_mem (runSorted : run.Pairwise (· < ·)) (sorted : xs.Pairwise (· < ·))
    (subset : ∀ x ∈ xs, x ∈ run) {j : Nat} (inside : j < run.length) :
    ((run.map fun a => decide (a ∈ xs)).take j).count true = xs.countP (· < run[j]) := by
  conv_rhs => rw [eq_filter_of_subset runSorted sorted subset]
  rw [← List.map_take, take_eq_filter_lt runSorted inside, List.count, List.countP_map, List.countP_filter,
    List.countP_filter]
  congr 1
  funext a
  simp [Bool.and_comm]

theorem nthTrue_map_mem (runSorted : run.Pairwise (· < ·)) (sorted : xs.Pairwise (· < ·))
    (subset : ∀ x ∈ xs, x ∈ run) (pad : Nat) {i : Nat} (inside : i < xs.length) :
    ∃ (j : Nat) (found : j < run.length),
      nthTrue ((run.map fun a => decide (a ∈ xs)) ++ List.replicate pad false) i = some j ∧ run[j] = xs[i] := by
  obtain ⟨j, found, same⟩ := List.getElem_of_mem (subset xs[i] (List.getElem_mem inside))
  refine ⟨j, found, ?_, same⟩
  rw [nthTrue_eq_some_iff, List.getElem?_append_left (by simpa using found), List.getElem?_map,
    List.getElem?_eq_getElem found, List.take_append_of_le_length (by simp; omega),
    count_take_map_mem runSorted sorted subset found, same, countP_lt_getElem sorted i inside]
  simp

end Lance.Library
