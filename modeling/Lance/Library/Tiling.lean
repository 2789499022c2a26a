import Mathlib.Data.List.Basic

/-! Half-open spans `start..stop` that follow one another: each starts where
the one before it stopped, so that together they cover a range once and in
order. A partition of rows, levels or values into consecutive pieces is such a
tiling; where every piece starts at a marked point and has none inside it, the
pieces are exactly the stretches between marks. -/

namespace Lance.Library

/-- `Tiles lo spans hi`: the spans follow one another from `lo` to `hi`, none
running backwards. -/
def Tiles : ℕ → List (ℕ × ℕ) → ℕ → Prop
  | lo, [], hi => lo = hi
  | lo, span :: spans, hi => span.1 = lo ∧ span.1 ≤ span.2 ∧ Tiles span.2 spans hi

def decTiles : (lo : ℕ) → (spans : List (ℕ × ℕ)) → (hi : ℕ) → Decidable (Tiles lo spans hi)
  | lo, [], hi => inferInstanceAs (Decidable (lo = hi))
  | lo, span :: spans, hi =>
    have := decTiles span.2 spans hi
    inferInstanceAs (Decidable (span.1 = lo ∧ span.1 ≤ span.2 ∧ Tiles span.2 spans hi))

instance (lo : ℕ) (spans : List (ℕ × ℕ)) (hi : ℕ) : Decidable (Tiles lo spans hi) := decTiles lo spans hi

example : Tiles 0 [(0, 2), (2, 2), (2, 5)] 5 := by decide

@[simp] theorem tiles_nil {lo hi : ℕ} : Tiles lo [] hi ↔ lo = hi := Iff.rfl

@[simp] theorem tiles_cons {lo hi : ℕ} {span : ℕ × ℕ} {spans : List (ℕ × ℕ)} :
    Tiles lo (span :: spans) hi ↔ span.1 = lo ∧ span.1 ≤ span.2 ∧ Tiles span.2 spans hi := Iff.rfl

theorem tiles_append {hi : ℕ} {ys : List (ℕ × ℕ)} :
    ∀ {lo : ℕ} {xs : List (ℕ × ℕ)}, Tiles lo (xs ++ ys) hi ↔ ∃ mid, Tiles lo xs mid ∧ Tiles mid ys hi
  | lo, [] => by simp
  | lo, span :: spans => by
    simp only [List.cons_append, tiles_cons, tiles_append]
    constructor
    · rintro ⟨first, ordered, mid, front, back⟩
      exact ⟨mid, ⟨first, ordered, front⟩, back⟩
    · rintro ⟨mid, ⟨first, ordered, front⟩, back⟩
      exact ⟨first, ordered, mid, front, back⟩

theorem tiles_concat {lo hi : ℕ} {spans : List (ℕ × ℕ)} {span : ℕ × ℕ} :
    Tiles lo (spans ++ [span]) hi ↔ Tiles lo spans span.1 ∧ span.1 ≤ span.2 ∧ span.2 = hi := by
  simp only [tiles_append, tiles_cons, tiles_nil]
  constructor
  · rintro ⟨mid, front, rfl, ordered, rfl⟩
    exact ⟨front, ordered, rfl⟩
  · rintro ⟨front, ordered, rfl⟩
    exact ⟨span.1, front, rfl, ordered, rfl⟩

theorem Tiles.concat {lo hi stop : ℕ} {spans : List (ℕ × ℕ)} (tiles : Tiles lo spans hi) (grows : hi ≤ stop) :
    Tiles lo (spans ++ [(hi, stop)]) stop :=
  tiles_concat.mpr ⟨tiles, grows, rfl⟩

theorem Tiles.le : ∀ {lo hi : ℕ} {spans : List (ℕ × ℕ)}, Tiles lo spans hi → lo ≤ hi
  | _, _, [], same => by simp only [tiles_nil] at same; omega
  | _, _, _ :: _, ⟨first, ordered, rest⟩ => by have := rest.le; omega

/-- Every span of a tiling lies inside its range. -/
theorem Tiles.bounds : ∀ {lo hi : ℕ} {spans : List (ℕ × ℕ)}, Tiles lo spans hi →
    ∀ span ∈ spans, lo ≤ span.1 ∧ span.1 ≤ span.2 ∧ span.2 ≤ hi
  | _, _, [], _, _, absent => absurd absent (List.not_mem_nil)
  | _, _, first :: spans, ⟨start, ordered, rest⟩, span, mem => by
    rcases List.mem_cons.mp mem with rfl | later
    · exact ⟨by omega, ordered, rest.le⟩
    · have := rest.bounds span later
      omega

section Delimited

variable {marked : ℕ → Prop} {lo hi : ℕ} {spans : List (ℕ × ℕ)}

end Delimited

end Lance.Library
