import Mathlib.Data.List.Infix

/-! Sliding windows of a list: every contiguous piece of a fixed length, in
order of their start. A window of a contiguous piece of a list is a window of
the list, which is what makes an index of fixed-length pieces sound for
substring search. Nothing here depends on the element type. -/

namespace Lance.Library

universe u

variable {α : Type u}

/-- Every contiguous piece of length `n` of a list, by increasing start. -/
def windows (n : Nat) : List α → List (List α)
  | [] => []
  | head :: rest =>
    if n ≤ rest.length + 1 then (head :: rest).take n :: windows n rest else []

/-- The windows of length `n` are exactly the contiguous pieces of length `n`. -/
theorem mem_windows_iff {n : Nat} (positive : 0 < n) :
    ∀ {list window : List α}, window ∈ windows n list ↔ window.length = n ∧ window <:+: list := by
  intro list
  induction list with
  | nil =>
    intro window
    constructor
    · intro member
      simp [windows] at member
    · rintro ⟨length, inside⟩
      have empty := List.eq_nil_of_infix_nil inside
      subst empty
      simp at length
      omega
  | cons head rest ih =>
    intro window
    by_cases fits : n ≤ rest.length + 1
    · simp only [windows, fits, ↓reduceIte, List.mem_cons, ih]
      constructor
      · rintro (first | ⟨length, later⟩)
        · subst first
          exact ⟨by simp; omega, List.IsPrefix.isInfix ⟨_, List.take_append_drop _ _⟩⟩
        · exact ⟨length, later.trans (List.suffix_cons head rest).isInfix⟩
      · rintro ⟨length, inside⟩
        rcases List.infix_cons_iff.mp inside with isPrefix | later
        · left
          rw [List.prefix_iff_eq_take.mp isPrefix, length]
        · exact .inr ⟨length, later⟩
    · simp only [windows, fits, ↓reduceIte, List.not_mem_nil, false_iff]
      rintro ⟨length, inside⟩
      have bound := inside.length_le
      simp at bound
      omega

end Lance.Library
