import Lance.Index.Fm.Wavelet
import Lance.Library.OptionList
import Lance.Library.SortDedup

/-! One partition of the FM-index (`FMIndex` in `scalar/fmindex.rs`).
`build` concatenates the documents, each followed by the sentinel `0xFF`,
ends the text with a single `0x00`, and stores the BWT in a wavelet tree,
every 32nd suffix-array entry, the start of each document and the count
table. `backward_search` narrows the suffix-array interval of a pattern one
byte at a time from its end; `locate` walks the LF mapping back to a sampled
entry; `search_row_addrs` maps each position of the interval to its document.

The suffix array comes from `libsais`, a library outside this repository,
taken here as a parameter; `sortSuffixes` is the suffix array by its
definition, one such parameter. -/

namespace Lance.Index.Fm

/-- `SENTINEL_BYTE`: the separator after every document. -/
def sentinelByte : UInt8 := 0xFF

def saSampleRate : Nat := 32

/-- `FMIndex`. -/
structure FMIndex where
  wavelet : HuffmanWaveletTree
  rowIds : List UInt64
  saSamples : List UInt64
  docStartPositions : List UInt64
  cTable : List Nat

/-- `build_suffix_array`, over the library call that fills a suffix array. -/
def buildSuffixArray (libsais : List UInt8 → List Nat) (text : List UInt8) : List Nat :=
  if text = [] then [] else libsais text

/-- The suffix array `libsais` fills, by its definition: the starts of the
text's suffixes, in the order of the suffixes. -/
def sortSuffixes (text : List UInt8) : List Nat :=
  (List.range text.length).mergeSort fun i j => decide (text.drop i ≤ text.drop j)

theorem perm_sortSuffixes (text : List UInt8) : (sortSuffixes text).Perm (List.range text.length) :=
  List.mergeSort_perm _ _

theorem sorted_sortSuffixes (text : List UInt8) :
    (sortSuffixes text).Pairwise fun i j => text.drop i ≤ text.drop j :=
  Library.pairwise_mergeSort_key (fun i => text.drop i) _

/-- The text `build` indexes: every document followed by the sentinel, then `0x00`. -/
def concatDocs (texts : List (UInt64 × List UInt8)) : List UInt8 :=
  (texts.flatMap fun (_, text) => text ++ [sentinelByte]) ++ [0]

/-- `doc_starts`: where each document begins in that text. -/
def docStarts : List (UInt64 × List UInt8) → Nat → List UInt64
  | [], _ => []
  | (_, text) :: rest, start => start.toUInt64 :: docStarts rest (start + text.length + 1)

/-- `c_table`: entry `c` is the number of bytes of the text below `c`, by
prefix sums of the byte counts. -/
def countTable (text : List UInt8) : List Nat :=
  ((List.range 256).map fun b => text.count b.toUInt8).scanl (· + ·) 0

/-- `sa_samples`: every `SA_SAMPLE_RATE`-th suffix-array entry, from the first. -/
def sampleSuffixArray (sa : List Nat) : List UInt64 :=
  (sa.zipIdx.filter fun (_, i) => i % saSampleRate = 0).map fun (pos, _) => pos.toUInt64

/-- `FMIndex::build`. -/
def FMIndex.build (libsais : List UInt8 → List Nat) (texts : List (UInt64 × List UInt8)) :
    Option FMIndex :=
  if texts = [] then some ⟨.empty, [], [], [], List.replicate 257 0⟩
  else do
    let concat := concatDocs texts
    let n := concat.length
    let sa := buildSuffixArray libsais concat
    let bwt ← sa.mapM fun pos => if pos = 0 then concat[n - 1]? else concat[pos - 1]?
    let wavelet ← HuffmanWaveletTree.build bwt
    some ⟨wavelet, texts.map (·.1), sampleSuffixArray sa, docStarts texts 0, countTable concat⟩

namespace FMIndex

variable (index : FMIndex)

/-- The loop of `locate` with `steps` LF steps taken. The source stops after
`n` steps, so fuel `n + 1` is never exhausted. -/
def locateLoop (n : Nat) : Nat → Nat → Nat → Option Nat
  | 0, _, _ => none
  | fuel + 1, pos, steps =>
    if pos % saSampleRate = 0 ∧ pos / saSampleRate < index.saSamples.length then do
      let sample ← index.saSamples[pos / saSampleRate]?
      if n = 0 then none else some ((sample.toNat + steps) % n)
    else do
      let c ← index.wavelet.access pos
      let base ← index.cTable[c.toNat]?
      let occ ← index.wavelet.rank c pos
      if n ≤ steps + 1 then some 0 else locateLoop n fuel (base + occ) (steps + 1)

/-- `locate`: the suffix-array entry at `pos`, or 0 once `n` steps found no sample. -/
def locate (pos : Nat) : Option Nat :=
  index.locateLoop index.wavelet.len (index.wavelet.len + 1) pos 0

/-- `doc_for_position` by `binary_search` over the (increasing) document
starts: the start itself, or the one before the insertion point, which for
the point 0 is `0 - 1` wrapped. -/
def docForPosition (textPos : Nat) : Nat :=
  let tp := textPos.toUInt64
  match index.docStartPositions.idxOf? tp with
  | some idx => idx
  | none => ((index.docStartPositions.filter (· < tp)).length.toUInt64 - 1).toNat

/-- The loop of `backward_search` over the pattern's bytes from its end. -/
def backwardSearchLoop : List UInt8 → Nat → Nat → Option (Nat × Nat)
  | [], lo, hi => some (lo, hi)
  | b :: rest, lo, hi => do
    let c ← index.cTable[b.toNat]?
    let (occLo, occHi) ← index.wavelet.rankPair b lo hi
    let lo := c + occLo
    let hi := c + occHi
    if hi ≤ lo then some (0, 0) else backwardSearchLoop rest lo hi

/-- `backward_search`: the suffix-array interval of the suffixes that start
with `pattern`, and `(0, 0)` for an empty pattern or an empty index. -/
def backwardSearch (pattern : List UInt8) : Option (Nat × Nat) :=
  if pattern = [] ∨ index.wavelet.len = 0 then some (0, 0)
  else index.backwardSearchLoop pattern.reverse 0 index.wavelet.len

/-- `search_row_addrs`: the row of the document of each position of the
interval, each row once, in order of first appearance. -/
def searchRowAddrs (pattern : List UInt8) : Option (List UInt64) := do
  let (lo, hi) ← index.backwardSearch pattern
  if hi ≤ lo then some []
  else
    (List.range' lo (hi - lo)).foldlM (fun result i => do
      let textPos ← index.locate i
      let rowAddr ← index.rowIds[index.docForPosition textPos]?
      some (if rowAddr ∈ result then result else result ++ [rowAddr])) []

end FMIndex

theorem bwt_read_isSome {text : List UInt8} (nonempty : text ≠ []) {pos : Nat} (inside : pos < text.length) :
    (if pos = 0 then text[text.length - 1]? else text[pos - 1]?).isSome := by
  have positive : 0 < text.length := List.length_pos_iff.mpr nonempty
  split <;> simp <;> omega

/-- The BWT `build` computes from a permutation of the text's positions is a
permutation of the text: it reads every byte once, the last one first. -/
theorem bwt_perm {text : List UInt8} (nonempty : text ≠ []) {sa : List Nat} (perm : sa.Perm (List.range text.length))
    {bwt : List UInt8}
    (read : sa.mapM (fun pos => if pos = 0 then text[text.length - 1]? else text[pos - 1]?) = some bwt) :
    bwt.Perm text := by
  have total : ∀ pos ∈ sa, (if pos = 0 then text[text.length - 1]? else text[pos - 1]?).isSome :=
    fun pos member => bwt_read_isSome nonempty (List.mem_range.mp (perm.mem_iff.mp member))
  rw [Library.mapM_eq_some_filterMap total, Option.some.injEq] at read
  subst read
  -- over the positions in order, the reads are the last byte and then the others
  obtain ⟨init, last, split⟩ := List.eq_nil_or_concat text |>.resolve_left nonempty
  rw [List.concat_eq_append] at split
  subst split
  have inOrder : (List.range (init ++ [last]).length).filterMap
      (fun pos => if pos = 0 then (init ++ [last])[(init ++ [last]).length - 1]? else (init ++ [last])[pos - 1]?) =
        last :: init := by
    rw [List.length_append, List.length_singleton, List.range_succ_eq_map, List.filterMap_cons,
      List.filterMap_map]
    simp only [↓reduceIte, List.getElem?_concat_length, Function.comp_def,
      Nat.succ_ne_zero, Nat.succ_sub_one]
    rw [Library.filterMap_getElem?_range init [last]]
  exact (perm.filterMap _).trans (inOrder.symm ▸ (List.perm_append_singleton last init).symm)

end Lance.Index.Fm
