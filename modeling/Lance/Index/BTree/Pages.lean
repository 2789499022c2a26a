import Lance.Index.BTree.Lookup
import Lance.Index.SearchResult
import Lance.Library.Chunks
import Lance.Library.ExceptRun

/-! The pages of the B-tree index and its training (`scalar/btree.rs`,
`scalar/btree/flat.rs`). Training cuts the sorted rows into pages of
`batch_size` rows (`chunk_concat_stream`), stores each page as a flat index
of its values and row ids, and records per page its first and last value
(the least and the greatest, nulls first) and its number of nulls.

A flat page answers a query from its rows. A few queries it answers from the
precomputed row sets; every other one it answers by evaluating the query's
DataFusion expression (`to_expr`) on each row, which the model takes as a
parameter: its value at a row's value, true, false or null. -/

namespace Lance.Index.BTree

open Lance.Library

variable {α : Type}

/-- `FlatIndex`: the rows of one page, value (`none` for null) and row id. -/
structure FlatIndex (α : Type) where
  data : List (Option α × UInt64)

namespace FlatIndex

variable (index : FlatIndex α)

def allAddrsMap : Finset Nat := (index.data.map fun row => row.2.toNat).toFinset

/-- `null_addrs_map`: the rows whose value is null (empty when there is none). -/
def nullAddrsMap : Finset Nat :=
  ((index.data.filter fun row => row.1.isNone).map fun row => row.2.toNat).toFinset

/-- `all`: every row, the null ones null. -/
def all : NullableRowAddrSet := ⟨index.allAddrsMap, index.nullAddrsMap⟩

def allIgnoreNulls : NullableRowAddrSet := ⟨index.allAddrsMap, ∅⟩

/-- `eval_expr`: the rows where the predicate is true are selected, those where
it is null are null. -/
def evalExpr (predicate : Option α → Option Bool) : NullableRowAddrSet :=
  ⟨((index.data.filter fun row => predicate row.1 = some true).map fun row => row.2.toNat).toFinset,
    ((index.data.filter fun row => predicate row.1 = none).map fun row => row.2.toNat).toFinset⟩

/-- `FlatIndex::search`, given `evaluate`, the value of a query's expression at
a row's value. -/
def search (evaluate : SargableQuery α → Option α → Option Bool) : SargableQuery α → NullableRowAddrSet
  -- `x = NULL` is null on every row
  | .equals ⊥ => ⟨∅, index.allAddrsMap⟩
  | .isNull => ⟨index.nullAddrsMap, ∅⟩
  | .range .unbounded .unbounded => ⟨index.allAddrsMap, ∅⟩
  -- `x < NULL` and `x > NULL` are null on every row
  | .range .unbounded (.included ⊥) | .range .unbounded (.excluded ⊥) => ⟨∅, index.allAddrsMap⟩
  | .range (.included ⊥) .unbounded | .range (.excluded ⊥) .unbounded => ⟨∅, index.allAddrsMap⟩
  | query => index.evalExpr (evaluate query)

theorem nullAddrsMap_eq_empty (no_nulls : ∀ row ∈ index.data, row.1.isSome) :
    index.nullAddrsMap = ∅ := by
  simp only [nullAddrsMap, List.toFinset_eq_empty_iff, List.map_eq_nil_iff, List.filter_eq_nil_iff]
  intro row member
  simpa [Option.isNone_iff_eq_none] using Option.ne_none_iff_isSome.mpr (no_nulls row member)

theorem trueRows_all (no_nulls : ∀ row ∈ index.data, row.1.isSome) {row : Option α × UInt64}
    (member : row ∈ index.data) : row.2.toNat ∈ index.all.trueRows := by
  simp only [all, NullableRowAddrSet.trueRows, nullAddrsMap_eq_empty index no_nulls, Finset.sdiff_empty,
    allAddrsMap, List.mem_toFinset, List.mem_map]
  exact ⟨row, member, rfl⟩

end FlatIndex

structure BatchStats (α : Type) where
  min : ScalarValue α
  max : ScalarValue α
  nullCount : UInt32

/-- `ScalarValue::try_from_array` at a row of the value column. -/
def scalarOf : Option α → ScalarValue α
  | none => ⊥
  | some v => v

/-- `analyze_batch`: the first and the last value of a sorted page, and its
number of nulls, cut to `u32`. -/
def analyzeBatch (batch : List (Option α × UInt64)) : Except String (BatchStats α) :=
  match batch.head?, batch.getLast? with
  | some first, some last =>
    .ok ⟨scalarOf first.1, scalarOf last.1, (batch.countP fun row => row.1.isNone).toUInt32⟩
  | _, _ => .error "received an empty batch in btree training"

/-- `train_btree_page` and the row `btree_stats_as_batch` makes of it. -/
def trainBtreePage (batch : List (Option α × UInt64)) (batchIdx : UInt32) : Except String (PageStats α) := do
  let stats ← analyzeBatch batch
  pure ⟨stats.min, stats.max, stats.nullCount, batchIdx⟩

/-- A trained B-tree index: the lookup and the pages, page `i` at batch `i` of
the page file. -/
structure BTreeIndex (α : Type) where
  pageLookup : BTreeLookup α
  pages : List (FlatIndex α)

/-- `lookup_page`: a trained index holds every page its lookup names; reading
a page the file lacks is an I/O error the model does not have. -/
def BTreeIndex.lookupPage (index : BTreeIndex α) (pageId : UInt32) : FlatIndex α :=
  (index.pages[pageId.toNat]?).getD ⟨[]⟩

/-- `train_btree_index` over sorted rows, with `batch_size` rows a page; the
page counter is a `u32`. -/
def trainBtreeIndex [LinearOrder α] (batchSize : Nat) (rows : List (Option α × UInt64)) : Except String (BTreeIndex α) := do
  let batches := chunks batchSize rows
  let stats ← batches.zipIdx.mapM fun entry => trainBtreePage entry.1 entry.2.toUInt32
  pure ⟨BTreeLookup.tryNew stats, batches.map FlatIndex.mk⟩

/-! ### Pages without nulls -/

theorem trainBtreePage_of_no_nulls {batch : List (Option α × UInt64)} (nonempty : batch ≠ [])
    (no_nulls : ∀ row ∈ batch, row.1.isSome) (batchIdx : UInt32) :
    ∃ page, trainBtreePage batch batchIdx = .ok page ∧
      page.min ≠ ⊥ ∧ page.max ≠ ⊥ ∧ page.nullCount = 0 ∧ page.pageIdx = batchIdx := by
  obtain ⟨first, firstIsHead⟩ := Option.ne_none_iff_exists'.mp (mt List.head?_eq_none_iff.mp nonempty)
  obtain ⟨last, lastIsLast⟩ := Option.ne_none_iff_exists'.mp (mt List.getLast?_eq_none_iff.mp nonempty)
  have firstValue := no_nulls first (List.mem_of_head? firstIsHead)
  have lastValue := no_nulls last (List.mem_of_getLast? lastIsLast)
  have noNullRows : (batch.countP fun row => row.1.isNone) = 0 := by
    rw [List.countP_eq_zero]
    intro row member
    simpa [Option.isNone_iff_eq_none] using Option.ne_none_iff_isSome.mpr (no_nulls row member)
  obtain ⟨v, hv⟩ := Option.isSome_iff_exists.mp firstValue
  obtain ⟨w, hw⟩ := Option.isSome_iff_exists.mp lastValue
  refine ⟨⟨v, w, 0, batchIdx⟩, ?_, WithBot.coe_ne_bot, WithBot.coe_ne_bot, rfl, rfl⟩
  simp [trainBtreePage, analyzeBatch, firstIsHead, lastIsLast, noNullRows, hv, hw, scalarOf, bind,
    Except.bind, pure, Except.pure]

/-- Rows without nulls train: every page holds no null, and the first is page 0. -/
theorem trainBtreeIndex_of_no_nulls [LinearOrder α] {batchSize : Nat} (positive : 0 < batchSize)
    {rows : List (Option α × UInt64)} (no_nulls : ∀ row ∈ rows, row.1.isSome) :
    ∃ stats : List (PageStats α), (∀ page ∈ stats, page.HasNoNulls) ∧
      (rows ≠ [] → ∃ first more, stats = first :: more ∧ first.pageIdx = 0) ∧
      trainBtreeIndex batchSize rows = .ok ⟨BTreeLookup.tryNew stats, (chunks batchSize rows).map FlatIndex.mk⟩ := by
  -- each page is a nonempty chunk of the rows, so it trains without nulls
  have pageGood : ∀ entry ∈ (chunks batchSize rows).zipIdx, ∃ page,
      trainBtreePage entry.1 entry.2.toUInt32 = .ok page ∧ page.HasNoNulls ∧ page.pageIdx = entry.2.toUInt32 := by
    intro entry member
    have inChunks := List.fst_mem_of_mem_zipIdx member
    obtain ⟨page, trained, hasMin, hasMax, noNulls, idx⟩ :=
      trainBtreePage_of_no_nulls (ne_nil_of_mem_chunks positive inChunks)
        (fun row inside => no_nulls row (mem_of_mem_chunks positive inChunks inside)) entry.2.toUInt32
    exact ⟨page, trained, ⟨hasMin, hasMax, noNulls⟩, idx⟩
  obtain ⟨stats, ran⟩ := mapM_ok_of_forall fun entry member =>
    (pageGood entry member).imp fun _ promised => promised.1
  refine ⟨stats, forall_mem_of_mapM_ok _ ran fun entry member page trained => ?_, ?_, ?_⟩
  · obtain ⟨same, trainedSame, full, _⟩ := pageGood entry member
    rw [trainedSame] at trained
    cases trained
    exact full
  · intro nonempty
    cases rows with
    | nil => exact absurd rfl nonempty
    | cons row rest =>
      rw [chunks_cons, List.zipIdx_cons] at ran pageGood
      obtain ⟨output, more, trained, _, listed⟩ := mapM_ok_cons.mp ran
      obtain ⟨page, trainedPage, _, idx⟩ := pageGood _ List.mem_cons_self
      rw [trainedPage, Except.ok.injEq] at trained
      subst trained
      exact ⟨page, more, listed, by rw [idx]; rfl⟩
  · simp [trainBtreeIndex, ran, bind, Except.bind, pure, Except.pure]

end Lance.Index.BTree
