import Mathlib.Data.List.AList
import Mathlib.Data.Finset.Lattice.Fold

/-! A multimap from keys to finite sets of values, stored as an association
list and built by adding one pair at a time, the way an inverted index
gathers its posting lists; and the union of a list of sets. -/

namespace Lance.Library

universe u v

variable {κ : Type u} {ν : Type v} [DecidableEq κ] [DecidableEq ν]

abbrev Multimap (κ : Type u) (ν : Type v) := AList (fun _ : κ => Finset ν)

namespace Multimap

/-- The values a key holds; an absent key holds none. -/
def values (map : Multimap κ ν) (key : κ) : Finset ν := (map.lookup key).getD ∅

def addPair (map : Multimap κ ν) (pair : κ × ν) : Multimap κ ν :=
  map.insert pair.1 (insert pair.2 (map.values pair.1))

theorem values_addPair (map : Multimap κ ν) (pair : κ × ν) (key : κ) :
    (map.addPair pair).values key =
      if key = pair.1 then insert pair.2 (map.values key) else map.values key := by
  by_cases same : key = pair.1
  · subst same
    simp [values, addPair]
  · simp [values, addPair, same, AList.lookup_insert_ne same]

/-- After adding pairs, a key holds a value when it held it before or the pair was added. -/
theorem mem_values_foldl (pairs : List (κ × ν)) :
    ∀ (map : Multimap κ ν) (key : κ) (value : ν),
      value ∈ (pairs.foldl addPair map).values key ↔ value ∈ map.values key ∨ (key, value) ∈ pairs := by
  induction pairs with
  | nil => simp
  | cons pair rest ih =>
    intro map key value
    rw [List.foldl_cons, ih, values_addPair]
    by_cases same : key = pair.1
    · subst same
      obtain ⟨key, other⟩ := pair
      simp only [↓reduceIte, Finset.mem_insert, List.mem_cons, Prod.mk.injEq, true_and]
      rw [or_assoc]
      exact or_left_comm
    · simp only [same, ↓reduceIte, List.mem_cons]
      constructor
      · rintro (held | added)
        · exact .inl held
        · exact .inr (.inr added)
      · rintro (held | (pushed | added))
        · exact .inl held
        · exact absurd (congrArg Prod.fst pushed) same
        · exact .inr added

end Multimap

theorem mem_foldl_union {value : ν} (sets : List (Finset ν)) :
    ∀ (seed : Finset ν), value ∈ sets.foldl (· ∪ ·) seed ↔ value ∈ seed ∨ ∃ set ∈ sets, value ∈ set := by
  induction sets with
  | nil => simp
  | cons set rest ih =>
    intro seed
    simp only [List.foldl_cons, ih, Finset.mem_union, List.mem_cons, exists_eq_or_imp, or_assoc]

end Lance.Library
