import Lance.Library.PartitionPoint
import Mathlib.Order.Basic
import Mathlib.Data.List.Basic

/-! `slice::binary_search` on a list: the probe lands on the partition point of
the elements below the value sought, and the search reports whether the value
stands there. On a strictly increasing list that is the index of a value that
is present and, for one that is not, the count of the elements below it. A
search through an order-preserving injective map is the search before it, so a
list of machine words can be searched through their numbers. -/

namespace Lance.Library

universe u v

variable {α : Type u} {β : Type v}

/-- A predicate that holds below `cut` and fails from `cut` on has its
partition point at `cut`. -/
theorem partitionPoint_eq_of_cut {pred : Nat → Bool} {first last cut : Nat} (low : first ≤ cut) (high : cut ≤ last)
    (below : ∀ i, first ≤ i → i < cut → pred i = true)
    (above : ∀ i, cut ≤ i → i < last → pred i = false) :
    partitionPoint first last pred = cut := by
  have partitioned : Partitioned pred first last := by
    intro i j lower ordered upper holds
    have inside : j < cut := by
      by_contra outside
      rw [above j (by omega) upper] at holds
      cases holds
    exact below i lower (by omega)
  obtain ⟨_, _, _, left, right⟩ := partitionPoint_bracket partitioned (by omega : first ≤ last)
  rcases Nat.lt_trichotomy (partitionPoint first last pred) cut with early | same | late
  · have fails := right _ (Nat.le_refl _) (by omega)
    rw [below _ (by omega) early] at fails
    cases fails
  · exact same
  · have holds := left cut low late
    rw [above cut (Nat.le_refl _) (by omega)] at holds
    cases holds

/-- `slice::binary_search`: `ok` at an index that holds the value, `error` at
the index where it would be inserted. -/
def binarySearch [LT α] [DecidableRel (α := α) (· < ·)] [DecidableEq α] (xs : List α) (val : α) :
    Except Nat Nat :=
  let idx := partitionPoint 0 xs.length fun i => xs[i]?.any (· < val)
  if xs[idx]? = some val then .ok idx else .error idx

/-- Searching the images under a map that keeps and reflects the order
between each element and the value sought is searching the list. -/
theorem binarySearch_map [LT α] [DecidableRel (α := α) (· < ·)] [DecidableEq α]
    [LT β] [DecidableRel (α := β) (· < ·)] [DecidableEq β]
    {f : α → β} (xs : List α) (val : α) (injective : ∀ a ∈ xs, f a = f val → a = val)
    (lt_iff : ∀ a ∈ xs, f a < f val ↔ a < val) :
    binarySearch (xs.map f) (f val) = binarySearch xs val := by
  have probe : (fun i : Nat => (xs.map f)[i]?.any (· < f val)) = fun i => xs[i]?.any (· < val) := by
    funext i
    rcases held : xs[i]? with _ | x
    · simp [List.getElem?_map, held]
    · simp [List.getElem?_map, held, lt_iff x (List.mem_of_getElem? held)]
  have found : ∀ idx : Nat, (xs.map f)[idx]? = some (f val) ↔ xs[idx]? = some val := by
    intro idx
    rw [List.getElem?_map, Option.map_eq_some_iff]
    constructor
    · rintro ⟨x, held, same⟩
      rw [held, injective x (List.mem_of_getElem? held) same]
    · intro held
      exact ⟨val, held, rfl⟩
  unfold binarySearch
  rw [List.length_map, probe]
  simp only [found]

theorem binarySearch_of_forall_gt [LT α] [DecidableRel (α := α) (· < ·)] [DecidableEq α] {xs : List α} {val : α}
    (asymm : ∀ a b : α, a < b → ¬b < a) (above : ∀ a ∈ xs, val < a) : binarySearch xs val = .error 0 := by
  have point : partitionPoint 0 xs.length (fun i => xs[i]?.any (· < val)) = 0 := by
    apply partitionPoint_of_forall_false (Nat.zero_le _)
    intro i _ inside
    simp [List.getElem?_eq_getElem inside, asymm _ _ (above _ (List.getElem_mem inside))]
  have absent : xs[0]? ≠ some val := by
    intro held
    exact asymm _ _ (above _ (List.mem_of_getElem? held)) (above _ (List.mem_of_getElem? held))
  simp only [binarySearch, point, absent, if_false]

theorem binarySearch_of_forall_lt [LT α] [DecidableRel (α := α) (· < ·)] [DecidableEq α] {xs : List α} {val : α}
    (below : ∀ a ∈ xs, a < val) : binarySearch xs val = .error xs.length := by
  have point : partitionPoint 0 xs.length (fun i => xs[i]?.any (· < val)) = xs.length := by
    apply partitionPoint_of_forall_true (Nat.zero_le _)
    intro i _ inside
    simp [List.getElem?_eq_getElem inside, below _ (List.getElem_mem inside)]
  simp [binarySearch, point]

section Sorted

/- A linear order in the sense of the core library, which machine words have
as well as numbers. -/
variable [LT α] [LE α] [Std.IsLinearOrder α] [Std.LawfulOrderLT α] [DecidableRel (α := α) (· < ·)]

/-- On a strictly increasing list the elements below a value are the first
ones, as many as there are. -/
theorem getElem_lt_iff_lt_countP {xs : List α} (sorted : xs.Pairwise (· < ·)) (val : α) :
    ∀ i (h : i < xs.length), xs[i] < val ↔ i < xs.countP (· < val) := by
  induction xs with
  | nil => intro i h; cases h
  | cons head rest ih =>
    intro i h
    obtain ⟨headBelow, restSorted⟩ := List.pairwise_cons.mp sorted
    by_cases small : head < val
    · cases i with
      | zero => simp [small]
      | succ i => simp [small, ih restSorted i (by simpa using h)]
    · -- everything after the head is above it, so nothing counts
      have none : rest.countP (· < val) = 0 := by
        rw [List.countP_eq_zero]
        intro x member below
        exact small (Std.lt_trans (headBelow x member) (by simpa using below))
      cases i with
      | zero => simp [small, none]
      | succ i =>
        simp only [List.getElem_cons_succ, List.countP_cons, none, small, decide_false,
          Bool.false_eq_true, ↓reduceIte, Nat.add_zero, Nat.not_lt_zero, iff_false]
        intro below
        exact Std.lt_irrefl
          (Std.lt_trans (Std.lt_of_le_of_lt (Std.not_lt.mp small) (headBelow _ (List.getElem_mem _))) below)

/-- In a strictly increasing list the elements below the one at `i` are the
`i` before it. -/
theorem countP_lt_getElem {xs : List α} (sorted : xs.Pairwise (· < ·)) (i : Nat) (h : i < xs.length) :
    xs.countP (· < xs[i]) = i := by
  have cut := getElem_lt_iff_lt_countP sorted xs[i]
  have notBelow : xs.countP (· < xs[i]) ≤ i := by
    have := (cut i h).not.mp Std.lt_irrefl
    omega
  rcases Nat.lt_or_eq_of_le notBelow with early | same
  · have ordered : xs[xs.countP (· < xs[i])] < xs[i] :=
      List.pairwise_iff_getElem.mp sorted _ _ (by omega) h early
    have := (cut _ (by omega)).mp ordered
    omega
  · exact same

theorem partitionPoint_lt_eq_countP {xs : List α} (sorted : xs.Pairwise (· < ·)) (val : α) :
    partitionPoint 0 xs.length (fun i => xs[i]?.any (· < val)) = xs.countP (· < val) := by
  have cut := getElem_lt_iff_lt_countP sorted val
  apply partitionPoint_eq_of_cut (Nat.zero_le _) List.countP_le_length
  · intro i _ below
    have inside : i < xs.length := Nat.lt_of_lt_of_le below List.countP_le_length
    simp [List.getElem?_eq_getElem inside, (cut i inside).mpr below]
  · intro i above inside
    simp [List.getElem?_eq_getElem inside, (cut i inside).not.mpr (by omega)]

/-- On a strictly increasing list the search finds a value that is present at
the count of the elements below it, and puts one that is not there. -/
theorem binarySearch_of_sorted [DecidableEq α] {xs : List α} (sorted : xs.Pairwise (· < ·))
    (val : α) :
    binarySearch xs val =
      if val ∈ xs then .ok (xs.countP (· < val)) else .error (xs.countP (· < val)) := by
  have point := partitionPoint_lt_eq_countP sorted val
  have found : xs[xs.countP (· < val)]? = some val ↔ val ∈ xs := by
    constructor
    · exact List.mem_of_getElem?
    · intro member
      obtain ⟨j, inside, rfl⟩ := List.mem_iff_getElem.mp member
      rw [countP_lt_getElem sorted j inside, List.getElem?_eq_getElem inside]
  simp only [binarySearch, point, found]

end Sorted

end Lance.Library
