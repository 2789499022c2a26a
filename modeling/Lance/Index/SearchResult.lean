import Mathlib.Data.Finset.Basic
import Mathlib.Data.Set.Basic
import Lance.Library.Multimap

/-! The answer of a scalar index to a query (`lance-index-core/src/scalar.rs`,
`lance-select/src/mask/nullable.rs`). Row addresses are `u64`; a
`RowAddrTreeMap` built from a posting list holds no fully selected fragment,
so it is modelled by the finite set of addresses it contains.

An index answer is good for a query when it agrees with the set of rows the
query selects in the way its variant promises: `Exact` names that set, `AtMost`
a superset the scan rechecks, `AtLeast` a subset. -/

namespace Lance.Index

/-- `NullableRowAddrSet`: the rows a filter selected and the rows where it
evaluated to null. A row in `nulls` is null even when it is also selected. -/
structure NullableRowAddrSet where
  selected : Finset Nat
  nulls : Finset Nat
  deriving DecidableEq

namespace NullableRowAddrSet

/-- `NullableRowAddrSet::new(row_ids, Default::default())`, as the helpers
`SearchResult::exact`, `at_most` and `at_least` build it. -/
def ofRows (rowIds : Finset Nat) : NullableRowAddrSet := ⟨rowIds, ∅⟩

/-- `true_rows`: selected and not null. -/
def trueRows (set : NullableRowAddrSet) : Finset Nat := set.selected \ set.nulls

@[simp] theorem trueRows_ofRows (rowIds : Finset Nat) : (ofRows rowIds).trueRows = rowIds := by
  simp [trueRows, ofRows]

/-- `union_all`: the OR of the sets in three-valued logic. A row is selected
when some set selects it, and null when some set has it null and none has it
true. -/
def unionAll (selections : List NullableRowAddrSet) : NullableRowAddrSet :=
  let selected := (selections.map (·.selected)).foldl (· ∪ ·) ∅
  let nulls := (selections.map (·.nulls)).foldl (· ∪ ·) ∅
  let anyTrue := (selections.map (·.trueRows)).foldl (· ∪ ·) ∅
  ⟨selected, nulls \ anyTrue⟩

theorem mem_trueRows_unionAll {selections : List NullableRowAddrSet} {set : NullableRowAddrSet}
    (member : set ∈ selections) {row : Nat} (isTrue : row ∈ set.trueRows) :
    row ∈ (unionAll selections).trueRows := by
  have selected : row ∈ (selections.map (·.selected)).foldl (· ∪ ·) ∅ :=
    (Lance.Library.mem_foldl_union _ ∅).mpr (.inr ⟨set.selected, List.mem_map_of_mem member, (Finset.mem_sdiff.mp isTrue).1⟩)
  have anyTrue : row ∈ (selections.map (·.trueRows)).foldl (· ∪ ·) ∅ :=
    (Lance.Library.mem_foldl_union _ ∅).mpr (.inr ⟨set.trueRows, List.mem_map_of_mem member, isTrue⟩)
  simp only [unionAll, trueRows, Finset.mem_sdiff]
  exact ⟨selected, fun null => null.2 anyTrue⟩

end NullableRowAddrSet

/-- `TextQuery`: the queries a text index answers. -/
inductive TextQuery where
  | stringContains (substr : String)
  | regex (pattern : String)

/-- `SearchResult`. -/
inductive SearchResult where
  | exact (rowAddrs : NullableRowAddrSet)
  | atMost (rowAddrs : NullableRowAddrSet)
  | atLeast (rowAddrs : NullableRowAddrSet)
  deriving DecidableEq

namespace SearchResult

def rowAddrs : SearchResult → NullableRowAddrSet
  | .exact rowAddrs | .atMost rowAddrs | .atLeast rowAddrs => rowAddrs

/-- What each variant promises about the set `matching` of rows that satisfy
the query: `Exact` is that set, `AtMost` contains it, `AtLeast` lies in it. -/
def Agrees (matching : Set Nat) : SearchResult → Prop
  | .exact rowAddrs => ↑rowAddrs.trueRows = matching
  | .atMost rowAddrs => matching ⊆ ↑rowAddrs.trueRows
  | .atLeast rowAddrs => ↑rowAddrs.trueRows ⊆ matching

@[simp] theorem agrees_atLeast_empty (matching : Set Nat) : (atLeast (.ofRows ∅)).Agrees matching := by
  simp [Agrees]

theorem agrees_atMost_iff {matching : Set Nat} {rowIds : Finset Nat} :
    (atMost (.ofRows rowIds)).Agrees matching ↔ ∀ row ∈ matching, row ∈ rowIds := by
  simp [Agrees, Set.subset_def]

theorem agrees_exact_empty_iff {matching : Set Nat} :
    (exact (.ofRows ∅)).Agrees matching ↔ matching = ∅ := by
  simp [Agrees, eq_comm]

end SearchResult

end Lance.Index
