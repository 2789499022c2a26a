import Mathlib.Data.Nat.Count

/-! Counting the naturals below a bound that satisfy a predicate, with Mathlib's
`Nat.count`. A natural `t` that satisfies `p` and has `o` others below it is the
`o`-th one (`Nat.nth_count`); these lemmas locate any other natural `m` against
it from the count below `m + 1`, which is what a search for the `o`-th one
compares. -/

namespace Lance.Library

variable {p : ℕ → Prop} [DecidablePred p]

theorem count_add_count_not (n : ℕ) : Nat.count p n + Nat.count (fun k => ¬ p k) n = n := by
  induction n with
  | zero => simp
  | succ n ih =>
    rw [Nat.count_succ, Nat.count_succ]
    by_cases holds : p n <;> simp [holds] <;> omega

theorem exists_count_eq_of_lt_count {o : ℕ} : ∀ {bound : ℕ}, o < Nat.count p bound →
    ∃ t < bound, p t ∧ Nat.count p t = o
  | 0, passes => absurd passes (by simp)
  | bound + 1, passes => by
    by_cases earlier : o < Nat.count p bound
    · obtain ⟨t, below, holds, counted⟩ := exists_count_eq_of_lt_count earlier
      exact ⟨t, Nat.lt_succ_of_lt below, holds, counted⟩
    · rw [Nat.count_succ] at passes
      have holds : p bound := by
        by_contra fails
        rw [if_neg fails] at passes
        omega
      rw [if_pos holds] at passes
      exact ⟨bound, Nat.lt_succ_self bound, holds, by omega⟩

section Target

variable {t o : ℕ} (holds : p t) (counted : Nat.count p t = o)
include holds counted

theorem count_succ_le_iff_lt (m : ℕ) : Nat.count p (m + 1) ≤ o ↔ m < t := by
  constructor
  · intro atMost
    by_contra later
    have grows : Nat.count p (t + 1) ≤ Nat.count p (m + 1) := Nat.count_monotone p (by omega)
    rw [Nat.count_succ, if_pos holds, counted] at grows
    omega
  · intro before
    rw [← counted]
    exact Nat.count_monotone p before

theorem eq_of_count_succ_eq {m : ℕ} (holdsAt : p m) (reached : Nat.count p (m + 1) = o + 1) : m = t := by
  rw [Nat.count_succ, if_pos holdsAt] at reached
  exact Nat.count_injective holdsAt holds (by omega)

end Target

end Lance.Library
