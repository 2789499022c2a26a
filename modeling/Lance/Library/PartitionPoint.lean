import Mathlib.Logic.Basic

/-! `partition_point` over a half-open range of indices: the binary search
that returns the first index of `[lo, hi)` where a predicate fails. When the
predicate holds on a prefix of the range and fails on the rest, that is the
end of the prefix. Nothing here depends on what the indices index. -/

namespace Lance.Library

/-- The `while lo < hi` loop of `partition_point`, with fuel: every round
shrinks `hi - lo`, so `hi - lo` rounds are enough. -/
def partitionPointLoop (pred : Nat → Bool) : Nat → Nat → Nat → Nat
  | 0, lo, _ => lo
  | fuel + 1, lo, hi =>
    if lo < hi then
      let mid := lo + (hi - lo) / 2
      if pred mid then partitionPointLoop pred fuel (mid + 1) hi
      else partitionPointLoop pred fuel lo mid
    else lo

def partitionPoint (lo hi : Nat) (pred : Nat → Bool) : Nat :=
  partitionPointLoop pred (hi - lo) lo hi

example : partitionPoint 0 5 (fun i => i < 3) = 3 := by decide

section Spec

variable {pred : Nat → Bool} {first last : Nat}

/-- `pred` holds on a prefix of `[first, last)` and fails on the rest. -/
def Partitioned (pred : Nat → Bool) (first last : Nat) : Prop :=
  ∀ i j, first ≤ i → i ≤ j → j < last → pred j = true → pred i = true

/-- What the loop keeps of the range `[first, last)` it started on: the window
`[lo, hi)` lies in it, `pred` holds left of the window and fails right of it. -/
def Bracket (pred : Nat → Bool) (first last lo hi : Nat) : Prop :=
  first ≤ lo ∧ lo ≤ hi ∧ hi ≤ last ∧
    (∀ i, first ≤ i → i < lo → pred i = true) ∧
    (∀ i, hi ≤ i → i < last → pred i = false)

theorem Bracket.start (ordered : first ≤ last) : Bracket pred first last first last :=
  ⟨Nat.le_refl _, ordered, Nat.le_refl _, fun _ low high => absurd high (by omega),
    fun _ low high => absurd high (by omega)⟩

theorem Bracket.probe_true {lo hi : Nat} (partitioned : Partitioned pred first last)
    (bracket : Bracket pred first last lo hi) (inside : lo < hi)
    (holds : pred (lo + (hi - lo) / 2) = true) :
    Bracket pred first last (lo + (hi - lo) / 2 + 1) hi := by
  obtain ⟨low, _, high, left, right⟩ := bracket
  refine ⟨by omega, by omega, high, fun i above below => ?_, right⟩
  by_cases before : i < lo
  · exact left i above before
  · exact partitioned i _ above (by omega) (by omega) holds

/-- A probe where `pred` fails moves the window's end to it: by the
partition, `pred` fails on the whole right half. -/
theorem Bracket.probe_false {lo hi : Nat} (partitioned : Partitioned pred first last)
    (bracket : Bracket pred first last lo hi) (inside : lo < hi)
    (fails : pred (lo + (hi - lo) / 2) = false) :
    Bracket pred first last lo (lo + (hi - lo) / 2) := by
  obtain ⟨low, _, high, left, right⟩ := bracket
  refine ⟨low, by omega, by omega, left, fun i above below => ?_⟩
  by_cases after : hi ≤ i
  · exact right i after below
  · cases probe : pred i with
    | false => rfl
    | true =>
      have := partitioned _ i (by omega) above (by omega) probe
      rw [fails] at this
      cases this

/-- With enough fuel the loop closes the window at the partition point. -/
theorem partitionPointLoop_bracket (partitioned : Partitioned pred first last) :
    ∀ fuel lo hi, Bracket pred first last lo hi → hi - lo ≤ fuel →
      Bracket pred first last (partitionPointLoop pred fuel lo hi)
        (partitionPointLoop pred fuel lo hi) := by
  intro fuel
  induction fuel with
  | zero =>
    intro lo hi bracket enough
    have closed : hi = lo := by have := bracket.2.1; omega
    subst closed
    exact bracket
  | succ fuel ih =>
    intro lo hi bracket enough
    by_cases inside : lo < hi
    · cases probe : pred (lo + (hi - lo) / 2) with
      | true =>
        simp only [partitionPointLoop, inside, ↓reduceIte, probe]
        exact ih _ _ (bracket.probe_true partitioned inside probe) (by omega)
      | false =>
        simp only [partitionPointLoop, inside, ↓reduceIte, probe, Bool.false_eq_true]
        exact ih _ _ (bracket.probe_false partitioned inside probe) (by omega)
    · have closed : hi = lo := by have := bracket.2.1; omega
      subst closed
      simpa [partitionPointLoop] using bracket

theorem partitionPoint_bracket (partitioned : Partitioned pred first last)
    (ordered : first ≤ last) :
    Bracket pred first last (partitionPoint first last pred) (partitionPoint first last pred) :=
  partitionPointLoop_bracket partitioned _ first last (.start ordered) (Nat.le_refl _)

theorem partitionPoint_of_forall_false (ordered : first ≤ last)
    (fails : ∀ i, first ≤ i → i < last → pred i = false) :
    partitionPoint first last pred = first := by
  have partitioned : Partitioned pred first last := by
    intro i j _ _ _ holds
    rw [fails j (by omega) (by omega)] at holds
    cases holds
  obtain ⟨low, _, high, left, _⟩ := partitionPoint_bracket partitioned ordered
  rcases Nat.eq_or_lt_of_le low with same | moved
  · exact same.symm
  · have holds := left first (Nat.le_refl _) moved
    rw [fails first (Nat.le_refl _) (by omega)] at holds
    cases holds

theorem partitionPoint_of_forall_true (ordered : first ≤ last)
    (holds : ∀ i, first ≤ i → i < last → pred i = true) :
    partitionPoint first last pred = last := by
  have partitioned : Partitioned pred first last := fun i _ _ _ _ _ => holds i (by omega) (by omega)
  obtain ⟨_, _, high, _, right⟩ := partitionPoint_bracket partitioned ordered
  rcases Nat.eq_or_lt_of_le high with same | short
  · exact same
  · have fails := right _ (Nat.le_refl _) short
    rw [holds _ (by omega) short] at fails
    cases fails

end Spec

end Lance.Library
