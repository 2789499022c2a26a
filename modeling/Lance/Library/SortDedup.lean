import Mathlib.Data.List.Sort
import Mathlib.Data.List.Destutter

/-! Sorting a list and then removing adjacent repeats, as `Vec::sort`
followed by `Vec::dedup` does: the result holds exactly the elements of the
input, whatever the comparator. A merge sort by a key of a linear preorder
leaves the list ordered by the key. -/

namespace Lance.Library

universe u v

theorem pairwise_mergeSort_key {α : Type u} {β : Type v} [LE β] [DecidableLE β] [Std.IsLinearPreorder β]
    (key : α → β) (items : List α) :
    (items.mergeSort fun a b => decide (key a ≤ key b)).Pairwise fun a b => key a ≤ key b := by
  have sorted := @List.pairwise_mergeSort _ (fun a b => decide (key a ≤ key b))
    (fun _ _ _ ab bc => by simp only [decide_eq_true_eq] at *; exact Std.le_trans ab bc)
    (fun a b => by simpa only [Bool.or_eq_true, decide_eq_true_eq] using Std.le_total) items
  exact sorted.imp of_decide_eq_true

variable {α : Type u} [DecidableEq α]

/-- A stable merge sort by `le`, then each element equal to the one kept before it dropped. -/
def sortDedup (le : α → α → Bool) (items : List α) : List α :=
  (items.mergeSort le).destutter (· ≠ ·)

/-- Dropping adjacent repeats keeps every element. -/
theorem mem_destutter'_ne {x : α} :
    ∀ (items : List α) (first : α), x ∈ first :: items → x ∈ items.destutter' (· ≠ ·) first := by
  intro items
  induction items with
  | nil =>
    intro first member
    simpa using member
  | cons next rest ih =>
    intro first member
    rw [List.destutter'_cons]
    by_cases repeated : first = next
    · subst repeated
      rw [if_neg fun different => different rfl]
      apply ih
      rcases List.mem_cons.mp member with head | tail
      · exact head ▸ List.mem_cons_self
      · exact tail
    · rw [if_pos repeated]
      rcases List.mem_cons.mp member with head | tail
      · exact head ▸ List.mem_cons_self
      · exact List.mem_cons_of_mem _ (ih next tail)

theorem mem_destutter_ne {x : α} {items : List α} : x ∈ items.destutter (· ≠ ·) ↔ x ∈ items := by
  constructor
  · intro member
    exact (List.destutter_sublist _ items).subset member
  · intro member
    cases items with
    | nil => simp at member
    | cons first rest =>
      rw [List.destutter_cons']
      exact mem_destutter'_ne rest first member

theorem mem_sortDedup {le : α → α → Bool} {items : List α} {x : α} :
    x ∈ sortDedup le items ↔ x ∈ items := by
  rw [sortDedup, mem_destutter_ne, List.mem_mergeSort]

end Lance.Library
