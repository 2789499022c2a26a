import Lance.Index.SargableQuery
import Lance.Library.PartitionPoint
import Lance.Library.SortDedup

/-! The page lookup of the B-tree index (`scalar/btree.rs`): one row of
statistics per page of the sorted values, `min | max | null_count | page_idx`,
sorted by `min` with nulls first, and the searches that choose the pages a
query reads. A page matches `Some` when it may hold matching rows, and `All`
when the lookup decides that every row of it matches.

The comparisons are those of the comparators the code builds, ascending with
nulls first: the order of `ScalarValue α`. Their construction fails only for
column types the model does not have, so the searches cannot fail, except the
slice `page_ids[bulk_start..end]` of `scan_equality_pages`, which panics when
the window it names is inverted. -/

namespace Lance.Index.BTree

open Lance.Library

/-- A row of the page lookup batch. -/
structure PageStats (α : Type) where
  min : ScalarValue α
  max : ScalarValue α
  nullCount : UInt32
  pageIdx : UInt32

/-- `Matches`. -/
inductive Matches where
  | some (pageId : UInt32)
  | all (pageId : UInt32)
  deriving DecidableEq

def Matches.pageId : Matches → UInt32
  | .some pageId | .all pageId => pageId

/-- `BTreeLookup`: the batch and what `try_new` precomputes from it. -/
structure BTreeLookup (α : Type) where
  batch : List (PageStats α)
  /-- Pages with a null value that are not entirely null. -/
  nullPages : List UInt32
  allNullPages : List UInt32
  /-- The first row whose `max` is not null. -/
  searchStart : Nat

/-- What the `try_new` loop has gathered. -/
structure LookupScan where
  nullPages : List UInt32
  allNullPages : List UInt32
  searchStart : Nat

variable {α : Type} [LinearOrder α]

/-- One round of the `try_new` loop, at row `idx` of a batch of `numRows` rows. -/
def tryNewStep (numRows : Nat) (scan : LookupScan) : PageStats α × Nat → LookupScan
  | (page, idx) =>
    -- an entirely-null page has a null `max` and is never searched by value
    if page.max = ⊥ then { scan with allNullPages := scan.allNullPages ++ [page.pageIdx] }
    else
      { nullPages := if 0 < page.nullCount then scan.nullPages ++ [page.pageIdx] else scan.nullPages
        allNullPages := scan.allNullPages
        searchStart := if scan.searchStart = numRows then idx else scan.searchStart }

/-- `BTreeLookup::try_new`. -/
def BTreeLookup.tryNew (batch : List (PageStats α)) : BTreeLookup α :=
  if 0 < batch.length then
    let scan := batch.zipIdx.foldl (tryNewStep batch.length) ⟨[], [], batch.length⟩
    ⟨batch, scan.nullPages, scan.allNullPages, scan.searchStart⟩
  else ⟨batch, [], [], 0⟩

/-- The comparison of `lower_ok` and `lower_full`: a scalar reaches a lower
bound, `>=` an included and `>` an excluded one. -/
def reachesLower : Bound (ScalarValue α) → ScalarValue α → Bool
  | .unbounded, _ => true
  | .included bound, x => bound ≤ x
  | .excluded bound, x => bound < x

/-- The comparison of `upper_full`: a scalar stays within an upper bound. -/
def withinUpper : Bound (ScalarValue α) → ScalarValue α → Bool
  | .unbounded, _ => true
  | .included bound, x => x ≤ bound
  | .excluded bound, x => x < bound

/-- The body of the `pages_between` loop for one page of the window. -/
def rangeMatch (lower upper : Bound (ScalarValue α)) (page : PageStats α) : Option Matches :=
  -- all-null pages are only matched by `IS NULL`
  if page.max = ⊥ then none
  else if !reachesLower lower page.max then none
  -- a null `min` straddles the null/non-null boundary: a partial match
  else if page.min = ⊥ then some (.some page.pageIdx)
  else if reachesLower lower page.min && withinUpper upper page.max then some (.all page.pageIdx)
  else some (.some page.pageIdx)

def valueOf? : ScalarValue α → Option α
  | ⊥ => none
  | (v : α) => some v

namespace BTreeLookup

variable (lookup : BTreeLookup α)

/-- The `min` of row `i`; every row the searches read exists. -/
def minAt (i : Nat) : ScalarValue α := ((lookup.batch[i]?).map (·.min)).getD ⊥

/-- The `page_idx` column. -/
def pageIds : List UInt32 := lookup.batch.map (·.pageIdx)

/-- The first row whose `min` is not below `bound`. -/
def firstNotBelow (bound : ScalarValue α) : Nat :=
  partitionPoint 0 lookup.batch.length fun i => lookup.minAt i < bound

/-- The start row of a search from `bound`, before the clamp to
`search_start`: it peeks left to the first row sharing the largest `min`
below the bound, so that a page like `[5, 10]` is reached by a query for 7. -/
def peekLeft (bound : ScalarValue α) : Nat :=
  let p := lookup.firstNotBelow bound
  if p = 0 then lookup.searchStart
  else partitionPoint 0 p fun i => lookup.minAt i < lookup.minAt (p - 1)

/-- `pages_between`. The end row treats the upper bound as inclusive. -/
def pagesBetween (lower upper : Bound (ScalarValue α)) : List Matches :=
  let numRows := lookup.batch.length
  if numRows ≤ lookup.searchStart then []
  else
    let start := match lower with
      | .unbounded => lookup.searchStart
      | .included bound | .excluded bound => lookup.peekLeft bound
    let start := max start lookup.searchStart
    let finish := match upper with
      | .unbounded => numRows
      | .included bound | .excluded bound =>
        partitionPoint start numRows fun i => lookup.minAt i ≤ bound
    if finish ≤ start then []
    else ((lookup.batch.drop start).take (finish - start)).filterMap (rangeMatch lower upper)

/-- The pages one value of `scan_equality_pages` adds: those of `[start, p)`
(`min` below the value) whose `max` reaches it, then all of `[p, end)`
(`min` equal to it); `none` where the slice `[bulk_start..end]` panics. -/
def equalityCandidates (value : α) : Option (List UInt32) :=
  let p := lookup.firstNotBelow value
  let start := max (lookup.peekLeft value) lookup.searchStart
  let finish := partitionPoint start lookup.batch.length fun i => lookup.minAt i ≤ value
  let bulkStart := max p start
  if finish < bulkStart then none
  else
    let straddling := ((lookup.batch.drop start).take (bulkStart - start)).filterMap fun page =>
      if page.max = ⊥ then none
      else if (value : ScalarValue α) ≤ page.max then some page.pageIdx
      else none
    some (straddling ++ (lookup.pageIds.drop bulkStart).take (finish - bulkStart))

def scanEqualityPages (values : List α) : Option (List UInt32) :=
  (values.mapM lookup.equalityCandidates).map fun pages => sortDedup (· ≤ ·) pages.flatten

def candidatePagesForValues (values : List α) : Option (List UInt32) :=
  if lookup.batch.length ≤ lookup.searchStart ∨ values = [] then some []
  else lookup.scanEqualityPages values

def pagesNull : List Matches :=
  lookup.nullPages.map .some ++ lookup.allNullPages.map .all

def pagesEq : ScalarValue α → Option (List Matches)
  | ⊥ => some lookup.pagesNull
  | (value : α) => (lookup.candidatePagesForValues [value]).map (List.map .some)

def pagesIn (values : List (ScalarValue α)) : Option (List Matches) :=
  let hasNull := values.any (· = ⊥)
  let nonNull := values.filterMap valueOf?
  let candidates := if nonNull = [] then some [] else lookup.candidatePagesForValues nonNull
  candidates.map fun allPages =>
    let allPages := if hasNull then allPages ++ lookup.pagesNull.map Matches.pageId else allPages
    (sortDedup (· ≤ ·) allPages).map .some

end BTreeLookup

/-! ### Pages without nulls

Sorted with nulls first, a page whose first value is not null holds no null:
its `min` and `max` are values and its null count is zero. -/

def PageStats.HasNoNulls (page : PageStats α) : Prop :=
  page.min ≠ ⊥ ∧ page.max ≠ ⊥ ∧ page.nullCount = 0

theorem tryNewStep_of_hasNoNulls {page : PageStats α} (full : page.HasNoNulls) (numRows idx : Nat)
    (scan : LookupScan) :
    tryNewStep numRows scan (page, idx) =
      { scan with searchStart := if scan.searchStart = numRows then idx else scan.searchStart } := by
  obtain ⟨_, hasMax, noNulls⟩ := full
  simp [tryNewStep, hasMax, noNulls]

theorem foldl_tryNewStep_of_settled {numRows : Nat} :
    ∀ (entries : List (PageStats α × Nat)) {scan : LookupScan}, (∀ entry ∈ entries, entry.1.HasNoNulls) →
      scan.searchStart ≠ numRows → entries.foldl (tryNewStep numRows) scan = scan := by
  intro entries
  induction entries with
  | nil => intro _ _ _; rfl
  | cons entry rest ih =>
    intro scan full settled
    obtain ⟨page, idx⟩ := entry
    rw [List.foldl_cons, tryNewStep_of_hasNoNulls (full _ List.mem_cons_self)]
    simp only [settled, ↓reduceIte]
    exact ih (fun other member => full other (List.mem_cons_of_mem _ member)) settled

theorem tryNew_of_hasNoNulls {batch : List (PageStats α)} (full : ∀ page ∈ batch, page.HasNoNulls) :
    BTreeLookup.tryNew batch = ⟨batch, [], [], 0⟩ := by
  cases batch with
  | nil => rfl
  | cons first rest =>
    have restFull : ∀ entry ∈ rest.zipIdx 1, entry.1.HasNoNulls := fun entry member =>
      full entry.1 (List.mem_cons_of_mem _ (List.fst_mem_of_mem_zipIdx member))
    simp only [BTreeLookup.tryNew, List.length_cons, Nat.zero_lt_succ, ↓reduceIte, List.zipIdx_cons,
      List.foldl_cons, tryNewStep_of_hasNoNulls (full first List.mem_cons_self)]
    -- the first row set `search_start` to zero, below the number of rows
    rw [foldl_tryNewStep_of_settled _ restFull (by simp)]

theorem rangeMatch_of_null_lower {page : PageStats α} (full : page.HasNoNulls) :
    rangeMatch (.included ⊥) .unbounded page = some (.all page.pageIdx) := by
  obtain ⟨hasMin, hasMax, _⟩ := full
  simp [rangeMatch, hasMin, hasMax, reachesLower, withinUpper]

theorem filterMap_rangeMatch_of_null_lower :
    ∀ (pages : List (PageStats α)), (∀ page ∈ pages, page.HasNoNulls) →
      pages.filterMap (rangeMatch (.included ⊥) .unbounded) = pages.map fun page => .all page.pageIdx := by
  intro pages
  induction pages with
  | nil => intro _; rfl
  | cons page rest ih =>
    intro full
    rw [List.filterMap_cons_some (rangeMatch_of_null_lower (full page List.mem_cons_self)), List.map_cons,
      ih fun other member => full other (List.mem_cons_of_mem _ member)]

/-- `pages_between` of `[NULL, ∞)` from the first row over pages without
nulls: every page, as a full match. No row of them is `>= NULL` in SQL's logic. -/
theorem pagesBetween_null_lower {lookup : BTreeLookup α} (start : lookup.searchStart = 0)
    (full : ∀ page ∈ lookup.batch, page.HasNoNulls) :
    lookup.pagesBetween (.included ⊥) .unbounded = lookup.batch.map fun page => .all page.pageIdx := by
  cases nonempty : lookup.batch.length with
  | zero =>
    simp [BTreeLookup.pagesBetween, List.eq_nil_of_length_eq_zero nonempty]
  | succ last =>
    -- no `min` is below null, so the search starts at the first row
    have noneBelow : lookup.firstNotBelow ⊥ = 0 :=
      partitionPoint_of_forall_false (Nat.zero_le _) fun i _ _ => by simp
    simp only [BTreeLookup.pagesBetween, BTreeLookup.peekLeft, noneBelow, nonempty, start, ↓reduceIte,
      Nat.le_zero, Nat.add_one_ne_zero, Nat.max_self, List.drop_zero, Nat.sub_zero]
    rw [← nonempty, List.take_length, filterMap_rangeMatch_of_null_lower lookup.batch full]

end Lance.Index.BTree
