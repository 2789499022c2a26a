import Lance.Index.Fm.FmIndex
import Lance.Index.SearchResult
import Lance.Library.OptionList

/-! The FM-index as a scalar index (`FMIndexScalarIndex` in
`scalar/fmindex.rs`): training sanitizes the bytes of every non-null value,
cuts the documents into partitions by row and byte limits and builds one
`FMIndex` per partition; a `contains` query is the union of every
partition's `search_row_addrs`, reported as an exact answer.

Two differences between that answer and the rows that contain the query show
in the model. An empty query reaches `backward_search`, which answers
`(0, 0)`, so no row is reported although every non-null row contains the
empty string. And `0x00` and `0xFF` are replaced by a space before indexing,
so what is searched is the sanitized text, not the original bytes. -/

namespace Lance.Index.Fm

/-- `sanitize_text_bytes`: the terminator and the sentinel become a space. -/
def sanitizeTextBytes (bytes : List UInt8) : List UInt8 :=
  bytes.map fun b => if b = sentinelByte ∨ b = 0x00 then 32 else b

/-- The Arrow type of the indexed column, as far as the index tells types apart. -/
inductive DataType where
  | utf8
  | largeUtf8
  | binary
  | largeBinary
  | other (name : String)

/-- `extract_sanitized_text_bytes`, on a value given by its bytes (a string's
UTF-8 encoding). -/
def extractSanitizedTextBytes (dataType : DataType) : Option (List UInt8) →
    Except String (Option (List UInt8))
  | none => .ok none
  | some bytes =>
    match dataType with
    | .utf8 | .largeUtf8 | .binary | .largeBinary => .ok (some (sanitizeTextBytes bytes))
    | .other name => .error ("Fm does not support data type: " ++ name)

/-! ### Training -/

/-- The partition limits of `FMIndexPartitionConfig`. -/
structure FMIndexPartitionConfig where
  maxRows : Nat
  maxBytes : Nat

/-- `FMIndexPartitionConfig::normalized`: limits of at least one. -/
def FMIndexPartitionConfig.normalized (config : FMIndexPartitionConfig) : FMIndexPartitionConfig :=
  ⟨max config.maxRows 1, max config.maxBytes 1⟩

def fmindexPartitionLimitReached (rows bytes maxRows maxBytes : Nat) : Bool :=
  maxRows ≤ rows || maxBytes ≤ bytes

abbrev PartitionState := List (List (UInt64 × List UInt8)) × List (UInt64 × List UInt8) × Nat

/-- One document of the producer loop: it joins the open partition, which is
finished once a limit is reached. -/
def partitionStep (config : FMIndexPartitionConfig) : PartitionState → UInt64 × List UInt8 → PartitionState
  | (done, partition, bytes), text =>
    let bytes := bytes + (text.2.length + 1)
    let partition := partition ++ [text]
    if fmindexPartitionLimitReached partition.length bytes config.maxRows config.maxBytes then
      (done ++ [partition], [], 0)
    else (done, partition, bytes)

def partitionTexts (config : FMIndexPartitionConfig) (texts : List (UInt64 × List UInt8)) :
    List (List (UInt64 × List UInt8)) :=
  let (done, partition, _) := texts.foldl (partitionStep config) ([], [], 0)
  if partition = [] then done else done ++ [partition]

def extractTexts (dataType : DataType) (rows : List (UInt64 × Option (List UInt8))) :
    Except String (List (UInt64 × List UInt8)) := do
  let texts ← rows.mapM fun (rowAddr, value) =>
    (extractSanitizedTextBytes dataType value).map fun bytes => bytes.map (rowAddr, ·)
  pure (texts.filterMap id)

/-- `FMIndexScalarIndex`: one FM-index per partition. -/
structure FMIndexScalarIndex where
  partitions : List FMIndex

/-- `train_index`: reject an unsupported type, then build every partition, or
one empty partition when no row has a value. The inner `none` is a panic. -/
def FMIndexScalarIndex.train (libsais : List UInt8 → List Nat) (config : FMIndexPartitionConfig)
    (dataType : DataType) (rows : List (UInt64 × Option (List UInt8))) :
    Except String (Option FMIndexScalarIndex) := do
  match dataType with
  | .other name => throw ("FM-Index does not support " ++ name)
  | _ => pure ()
  let texts ← extractTexts dataType rows
  let partitions := partitionTexts config.normalized texts
  let partitions := if partitions = [] then [[]] else partitions
  pure ((partitions.mapM (FMIndex.build libsais)).map FMIndexScalarIndex.mk)

/-! ### Search -/

namespace FMIndexScalarIndex

variable (index : FMIndexScalarIndex)

/-- `search_string_contains`: the union of the rows every partition reports,
as an exact answer. -/
def searchStringContains (pattern : List UInt8) : Option SearchResult := do
  let found ← index.partitions.mapM fun partition => partition.searchRowAddrs pattern
  some (.exact (.ofRows (found.flatten.map UInt64.toNat).toFinset))

/-- `FMIndexScalarIndex::search`: a `contains` query by the pattern's UTF-8
bytes; a regular expression is refused. -/
def search : TextQuery → Except String (Option SearchResult)
  | .stringContains pattern => .ok (index.searchStringContains (pattern.toList.flatMap String.utf8EncodeChar))
  | .regex _ => .error "FMIndex does not support regular expression queries"

end FMIndexScalarIndex

/-- The rows whose original bytes contain `pattern`. -/
def containsRows (rows : List (UInt64 × Option (List UInt8))) (pattern : List UInt8) : Set Nat :=
  {row | ∃ rowAddr bytes, (rowAddr, some bytes) ∈ rows ∧ rowAddr.toNat = row ∧ pattern <:+: bytes}

/-! ### The empty query -/

theorem FMIndex.backwardSearch_nil (partition : FMIndex) : partition.backwardSearch [] = some (0, 0) := by
  simp [FMIndex.backwardSearch]

theorem FMIndex.searchRowAddrs_nil (partition : FMIndex) : partition.searchRowAddrs [] = some [] := by
  simp [FMIndex.searchRowAddrs, FMIndex.backwardSearch_nil]

theorem FMIndexScalarIndex.searchStringContains_nil (index : FMIndexScalarIndex) :
    index.searchStringContains [] = some (.exact (.ofRows ∅)) := by
  have ran : index.partitions.mapM (fun partition => partition.searchRowAddrs []) =
      some (index.partitions.filterMap fun partition => partition.searchRowAddrs []) :=
    Library.mapM_eq_some_filterMap fun partition _ => by rw [partition.searchRowAddrs_nil]; rfl
  have empty : (index.partitions.filterMap fun partition => partition.searchRowAddrs []).flatten = [] := by
    rw [List.flatten_eq_nil_iff]
    intro found member
    obtain ⟨partition, _, reported⟩ := List.mem_filterMap.mp member
    rw [partition.searchRowAddrs_nil] at reported
    exact (Option.some.inj reported).symm
  rw [FMIndexScalarIndex.searchStringContains, ran]
  simp only [Option.bind_eq_bind, Option.bind_some, empty]
  rfl

/-- The empty query answers `Exact` of no row, whatever the partitions hold,
while every non-null row contains the empty string. -/
theorem search_empty_pattern_misses_rows (index : FMIndexScalarIndex)
    {rows : List (UInt64 × Option (List UInt8))} {rowAddr : UInt64} {bytes : List UInt8}
    (non_null : (rowAddr, some bytes) ∈ rows) :
    index.search (.stringContains "") = .ok (some (.exact (.ofRows ∅))) ∧
      ¬ (SearchResult.exact (.ofRows ∅)).Agrees
        (containsRows rows ("".toList.flatMap String.utf8EncodeChar)) := by
  refine ⟨?_, fun agrees => ?_⟩
  · simp only [FMIndexScalarIndex.search, String.toList_empty, List.flatMap_nil,
      index.searchStringContains_nil]
  · have none_match := SearchResult.agrees_exact_empty_iff.mp agrees
    have contained : rowAddr.toNat ∈ containsRows rows ("".toList.flatMap String.utf8EncodeChar) :=
      ⟨rowAddr, bytes, non_null, rfl, by simp⟩
    rw [none_match] at contained
    exact contained

theorem search_empty_pattern_misses_rows_at_one_row :
    ((0, some [97]) ∈ [((0 : UInt64), some ([97] : List UInt8))]) ∧
      ((⟨[]⟩ : FMIndexScalarIndex).search (.stringContains "") = .ok (some (.exact (.ofRows ∅))) ∧
        ¬ (SearchResult.exact (.ofRows ∅)).Agrees
          (containsRows [((0 : UInt64), some ([97] : List UInt8))] ("".toList.flatMap String.utf8EncodeChar))) :=
  ⟨List.mem_singleton_self _, search_empty_pattern_misses_rows ⟨[]⟩ (List.mem_singleton_self _)⟩

end Lance.Index.Fm
