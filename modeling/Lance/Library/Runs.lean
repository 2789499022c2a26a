import Mathlib.Data.List.Basic

/-! Values grouped into half-open ranges of consecutive values, as an iterator
over sorted ids groups them: a value equal to the end of the current range
extends it, any other value closes it and opens a new one. -/

namespace Lance.Library

def groupRunsFrom : Option (ℕ × ℕ) → List ℕ → List (ℕ × ℕ)
  | none, [] => []
  | some current, [] => [current]
  | none, id :: rest => groupRunsFrom (some (id, id + 1)) rest
  | some (start, stop), id :: rest =>
    if stop = id then groupRunsFrom (some (start, id + 1)) rest
    else (start, stop) :: groupRunsFrom (some (id, id + 1)) rest

def groupRuns (ids : List ℕ) : List (ℕ × ℕ) := groupRunsFrom none ids

example : groupRuns [1, 2, 3, 5, 6, 7, 10, 11, 12] = [(1, 4), (5, 8), (10, 13)] := rfl

/-! ### The runs cover the values, and nothing else -/

/-- From a nonempty open range, a value lies in a run exactly when it lies in
the open range or is one of the values still to come. -/
theorem mem_groupRunsFrom {v : ℕ} : ∀ {ids : List ℕ} {start stop : ℕ}, start < stop →
    ((∃ run ∈ groupRunsFrom (some (start, stop)) ids, run.1 ≤ v ∧ v < run.2) ↔
      (start ≤ v ∧ v < stop) ∨ v ∈ ids)
  | [], _, _, _ => by simp [groupRunsFrom]
  | id :: rest, start, stop, nonempty => by
    unfold groupRunsFrom
    rw [List.mem_cons]
    split_ifs with joined
    · -- the value extends the open range by one
      rw [mem_groupRunsFrom (by omega)]
      by_cases later : v ∈ rest
      · simp only [later, or_true]
      · simp only [later, or_false]
        omega
    · simp only [List.mem_cons, or_and_right, exists_or, exists_eq_left]
      rw [mem_groupRunsFrom (by omega)]
      by_cases later : v ∈ rest
      · simp only [later, or_true]
      · simp only [later, or_false]
        omega

theorem lt_of_mem_groupRunsFrom : ∀ {ids : List ℕ} {start stop : ℕ}, start < stop →
    ∀ run ∈ groupRunsFrom (some (start, stop)) ids, run.1 < run.2
  | [], _, _, nonempty, run, mem => by
    rw [groupRunsFrom, List.mem_singleton] at mem
    exact mem ▸ nonempty
  | id :: rest, start, stop, nonempty, run, mem => by
    unfold groupRunsFrom at mem
    split_ifs at mem
    · exact lt_of_mem_groupRunsFrom (by omega) run mem
    · rcases List.mem_cons.mp mem with closed | later
      · exact closed ▸ nonempty
      · exact lt_of_mem_groupRunsFrom (Nat.lt_succ_self id) run later

theorem pairwise_groupRunsFrom : ∀ {ids : List ℕ} {start stop : ℕ}, start < stop → ids.Pairwise (· < ·) →
    (∀ id ∈ ids, stop ≤ id) → (groupRunsFrom (some (start, stop)) ids).Pairwise fun run next => run.2 < next.1
  | [], _, _, _, _, _ => List.pairwise_singleton _ _
  | id :: rest, start, stop, nonempty, sorted, above => by
    rw [List.pairwise_cons] at sorted
    have reached := above id List.mem_cons_self
    unfold groupRunsFrom
    split_ifs with joined
    · exact pairwise_groupRunsFrom (by omega) sorted.2 fun later mem => sorted.1 later mem
    · refine List.pairwise_cons.mpr ⟨fun next mem => ?_,
        pairwise_groupRunsFrom (Nat.lt_succ_self id) sorted.2 fun later mem => sorted.1 later mem⟩
      -- the next run starts at a value of its own, which is at least `id`
      have starts := (mem_groupRunsFrom (Nat.lt_succ_self id)).mp
        ⟨next, mem, Nat.le_refl _, lt_of_mem_groupRunsFrom (Nat.lt_succ_self id) next mem⟩
      rcases starts with first | later
      · omega
      · have := sorted.1 _ later
        omega

theorem mem_groupRuns {v : ℕ} : ∀ {ids : List ℕ}, (∃ run ∈ groupRuns ids, run.1 ≤ v ∧ v < run.2) ↔ v ∈ ids
  | [] => by simp [groupRuns, groupRunsFrom]
  | id :: rest => by
    rw [groupRuns, groupRunsFrom, mem_groupRunsFrom (Nat.lt_succ_self id), List.mem_cons]
    by_cases later : v ∈ rest
    · simp only [later, or_true]
    · simp only [later, or_false]
      omega

theorem lt_of_mem_groupRuns : ∀ {ids : List ℕ}, ∀ run ∈ groupRuns ids, run.1 < run.2
  | [] => by simp [groupRuns, groupRunsFrom]
  | id :: _ => lt_of_mem_groupRunsFrom (Nat.lt_succ_self id)

theorem pairwise_groupRuns : ∀ {ids : List ℕ}, ids.Pairwise (· < ·) →
    (groupRuns ids).Pairwise fun run next => run.2 < next.1
  | [], _ => List.Pairwise.nil
  | id :: _, sorted => by
    rw [List.pairwise_cons] at sorted
    exact pairwise_groupRunsFrom (Nat.lt_succ_self id) sorted.2 sorted.1

end Lance.Library
