import Lance.Index.BTree.Pages

/-! `BTreeIndex::search` (`scalar/btree.rs`): the lookup chooses the pages a
query reads, the null pages are added so that their null rows are marked
null, each page is searched, and the answers are OR-ed in three-valued logic
into an `Exact` result.

A page the lookup matches `All` is not searched: every row of it is taken as
true. That is sound only when the page's values all satisfy the query. The
lookup decides it with the nulls-first comparator, where a null bound is the
least scalar; for `x >= NULL` it therefore marks every page without nulls a
full match, while the flat page, and SQL, make every row null. -/

namespace Lance.Index.BTree

open Lance.Library

variable {α : Type} [LinearOrder α]

/-- The range a `LIKE` prefix query searches: `[prefix, next_prefix)` for a
string prefix, every page for any other scalar. -/
def likePrefixRange (column : ColumnType α) : ScalarValue α → Bound (ScalarValue α) × Bound (ScalarValue α)
  | (pfx : α) =>
    match column.utf8 pfx with
    | some text =>
      (.included (pfx : ScalarValue α), match computeNextPrefix text with
        | some next => .excluded ((column.withUtf8 pfx next : α) : ScalarValue α)
        | none => .unbounded)
    | none => (.unbounded, .unbounded)
  | ⊥ => (.unbounded, .unbounded)

namespace BTreeIndex

variable (index : BTreeIndex α)

/-- The pages the lookup chooses for a query; `none` where the lookup panics. -/
def queryPages (column : ColumnType α) : SargableQuery α → Except String (Option (List Matches))
  | .equals value => .ok (index.pageLookup.pagesEq value)
  | .range start finish => .ok (some (index.pageLookup.pagesBetween start finish))
  | .isIn values => .ok (index.pageLookup.pagesIn values)
  | .fullTextSearch =>
    .error "full text search is not supported for BTree index, build a inverted index for it"
  | .isNull => .ok (some index.pageLookup.pagesNull)
  | .likePrefix pfx =>
    let (start, finish) := likePrefixRange column pfx
    .ok (some (index.pageLookup.pagesBetween start finish))

/-- For a query other than `IsNull`, the null and all-null pages not chosen
yet, added as `Some` so that the page search marks their null rows null. -/
def withNullPages (query : SargableQuery α) (pages : List Matches) : List Matches :=
  match query with
  | .isNull => pages
  | _ =>
    let existing := pages.map Matches.pageId
    pages ++ ((index.pageLookup.nullPages ++ index.pageLookup.allNullPages).filter (· ∉ existing)).map .some

/-- `search_page`. The predicate `search` compiles once for `IsIn` is the one
the page search would build. -/
def searchPage (evaluate : SargableQuery α → Option α → Option Bool) (query : SargableQuery α) :
    Matches → NullableRowAddrSet
  | .some pageId => (index.lookupPage pageId).search evaluate query
  | .all pageId =>
    match query with
    -- an all-null page matched by `IS NULL`: every row is true
    | .isNull => (index.lookupPage pageId).allIgnoreNulls
    | _ => (index.lookupPage pageId).all

/-- `BTreeIndex::search`; `none` where the lookup panics. -/
def search (evaluate : SargableQuery α → Option α → Option Bool) (column : ColumnType α)
    (query : SargableQuery α) : Except String (Option SearchResult) := do
  let pages? ← index.queryPages column query
  pure (pages?.map fun pages =>
    .exact (NullableRowAddrSet.unionAll ((index.withNullPages query pages).map (index.searchPage evaluate query))))

end BTreeIndex

def matchingRows (column : ColumnType α) (rows : List (Option α × UInt64)) (query : SargableQuery α) : Set Nat :=
  {row | ∃ value rowId, (value, rowId) ∈ rows ∧ rowId.toNat = row ∧ query.Satisfies column.utf8 value}

theorem matchingRows_null_lower (column : ColumnType α) (rows : List (Option α × UInt64))
    (finish : Bound (ScalarValue α)) : matchingRows column rows (.range (.included ⊥) finish) = ∅ := by
  apply Set.eq_empty_of_forall_notMem
  rintro row ⟨value, rowId, _, _, satisfied⟩
  cases value with
  | none => exact satisfied
  | some v => exact satisfied.1

/-- Over a lookup of pages without nulls, `x >= NULL` takes every page as a
full match, and the answer is the union of all their rows, every one true. -/
theorem search_null_lower (evaluate : SargableQuery α → Option α → Option Bool) (column : ColumnType α)
    {index : BTreeIndex α} {batch : List (PageStats α)} (looked : index.pageLookup = ⟨batch, [], [], 0⟩)
    (full : ∀ page ∈ batch, page.HasNoNulls) :
    index.search evaluate column (.range (.included ⊥) .unbounded) =
      .ok (some (.exact (NullableRowAddrSet.unionAll (batch.map fun page => (index.lookupPage page.pageIdx).all)))) := by
  have chosen : index.pageLookup.pagesBetween (.included ⊥) .unbounded = batch.map fun page => .all page.pageIdx := by
    rw [looked]
    exact pagesBetween_null_lower rfl full
  -- there are no null pages to add
  have added : index.withNullPages (.range (.included ⊥) .unbounded) (batch.map fun page => .all page.pageIdx) =
      batch.map fun page => .all page.pageIdx := by
    simp [BTreeIndex.withNullPages, looked]
  simp only [BTreeIndex.search, BTreeIndex.queryPages, chosen, bind, Except.bind, pure, Except.pure,
    Option.map_some, added, List.map_map]
  rfl

/-- The B-tree index is not exact for a range from a null lower bound. Trained
on rows without nulls, it answers `x >= NULL` with an `Exact` result that makes
every row of the first page true, although no row is `>= NULL`. -/
theorem search_null_lower_bound_selects_rows (evaluate : SargableQuery α → Option α → Option Bool)
    (column : ColumnType α) {batchSize : Nat} (positive : 0 < batchSize)
    {rows : List (Option α × UInt64)} (no_nulls : ∀ row ∈ rows, row.1.isSome)
    {value : α} {rowId : UInt64} (first_page : (some value, rowId) ∈ rows.take batchSize) :
    ∃ index result, trainBtreeIndex batchSize rows = .ok index ∧
      index.search evaluate column (.range (.included ⊥) .unbounded) = .ok (some (.exact result)) ∧
      rowId.toNat ∈ result.trueRows ∧
      ¬ (SearchResult.exact result).Agrees (matchingRows column rows (.range (.included ⊥) .unbounded)) := by
  obtain ⟨stats, full, firstPage, trained⟩ := trainBtreeIndex_of_no_nulls positive no_nulls
  let index : BTreeIndex α := ⟨BTreeLookup.tryNew stats, (chunks batchSize rows).map FlatIndex.mk⟩
  have answered := @search_null_lower α _ evaluate column index stats (tryNew_of_hasNoNulls full) full
  -- the row lies in the first page, which is page 0 and holds no null
  have isTrue : rowId.toNat ∈
      (NullableRowAddrSet.unionAll (stats.map fun page => (index.lookupPage page.pageIdx).all)).trueRows := by
    cases rows with
    | nil => simp at first_page
    | cons row rest =>
      obtain ⟨first, more, listed, firstIsZero⟩ := firstPage (List.cons_ne_nil _ _)
      subst listed
      have looked : index.lookupPage first.pageIdx = ⟨(row :: rest).take batchSize⟩ := by
        simp [firstIsZero, BTreeIndex.lookupPage, index, chunks_cons]
      have pageNoNulls : ∀ other ∈ (⟨(row :: rest).take batchSize⟩ : FlatIndex α).data, other.1.isSome :=
        fun other inside => no_nulls other (List.mem_of_mem_take inside)
      apply NullableRowAddrSet.mem_trueRows_unionAll (List.mem_map_of_mem List.mem_cons_self)
      rw [looked]
      exact FlatIndex.trueRows_all _ pageNoNulls first_page
  refine ⟨index, _, trained, answered, isTrue, fun agrees => ?_⟩
  -- an exact answer would name no row, since no row is `>= NULL`
  simp only [SearchResult.Agrees, matchingRows_null_lower] at agrees
  have inSet := Finset.mem_coe.mpr isTrue
  rw [agrees] at inSet
  exact inSet

def intColumn : ColumnType ℤ := ⟨fun _ => false, none, fun _ => none, fun v _ => v⟩

theorem search_null_lower_bound_selects_rows_at_five :
    (0 < 1 ∧ (∀ row ∈ [((some 5 : Option ℤ), (0 : UInt64))], row.1.isSome) ∧
      ((some 5 : Option ℤ), (0 : UInt64)) ∈ [((some 5 : Option ℤ), (0 : UInt64))].take 1) ∧
    ∃ index result, trainBtreeIndex 1 [((some 5 : Option ℤ), (0 : UInt64))] = .ok index ∧
      index.search (fun _ _ => none) intColumn (.range (.included ⊥) .unbounded) = .ok (some (.exact result)) ∧
      (0 : UInt64).toNat ∈ result.trueRows ∧
      ¬ (SearchResult.exact result).Agrees
        (matchingRows intColumn [(some 5, 0)] (.range (.included ⊥) .unbounded)) :=
  ⟨⟨by decide, by decide, by decide⟩,
    @search_null_lower_bound_selects_rows ℤ _ (fun _ _ => none) intColumn 1 (by decide) [(some 5, 0)]
      (by decide) 5 0 (by decide)⟩

end Lance.Index.BTree
