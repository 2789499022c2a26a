import Lance.Index.Fm.FmIndex
import Mathlib.Data.Nat.Fib.Basic

/-! Huffman codes longer than 32 bits in `HuffmanWaveletTree::build`
(`scalar/fmindex.rs`). A code's `bits` is a `u32` grown by `bits << 1`, and
its bit at `level` is read as `bits >> (length - 1 - level)`. Once a code is
longer than 32 bits the top bits have left the word, and the shift at the top
levels is 32 or more, which the release build takes modulo 32: the bits read
there are the code's low bits.

Byte counts that grow like the Fibonacci numbers make the Huffman tree a
chain, each internal node with a leaf on its left. In the text of one document
the terminator `0x00` and the separator `0xFF` are the two rarest bytes, at
the bottom of the chain, with codes of 33 bits: `0x00` is `1…10`. Its root
bit is read as its last bit, 0, so the root stores 0 at the position of
`0x00` in the BWT, and `access` there goes left, to the leaf of the most
frequent byte. -/

namespace Lance.Index.Fm

open Lance.Library

/-- Byte counts of a document that make the Huffman tree of its index a
chain: byte `k`, for `k` from 1 to 32, occurs `fib (k + 2)` times. -/
def chainDocCounts (b : UInt8) : Nat :=
  if 1 ≤ b.toNat ∧ b.toNat ≤ 32 then Nat.fib (b.toNat + 2) else 0

def chainCounts (b : UInt8) : Nat :=
  chainDocCounts b + if b = 0 ∨ b = 255 then 1 else 0

def chainBytes : List UInt8 := 255 :: (List.range 33).map Nat.toUInt8

/-- The Huffman tree of those counts below the leaf of byte `k + 1`: a chain
whose bottom node holds `0x00` and `0xFF`. -/
def chainTree : Nat → HuffNode
  | 0 => .internal (.leaf 0) (.leaf 255)
  | k + 1 => .internal (.leaf (k + 1).toUInt8) (chainTree k)

/-- What `assign` makes of the chain: 33 internal nodes, numbered from the root. -/
def chainState : AssignState := (assign (chainTree 32) 0 0 [] ⟨0, fun _ => .default, []⟩).2

/-! ### The Huffman tree of the chain counts, computed -/

theorem huffmanRoot_chainCounts : huffmanRoot chainCounts = some (chainTree 32) := by decide

theorem chainState_nodeCount : chainState.nodeCount = 33 := by decide

theorem chainState_root : chainState.children[0]? = some (.leaf 32, .node 1) := by decide

theorem chainState_terminator_bitAt : (chainState.codes 0).bitAt 0 = false := by decide

set_option maxRecDepth 2000 in
theorem chainState_startsAtRoot : ∀ b ∈ chainBytes,
    (chainState.codes b).nodePath.head? = some 0 ∧ 0 ∉ (chainState.codes b).nodePath.tail := by decide

theorem mem_chainBytes {b : UInt8} (occurs : 0 < chainCounts b) : b ∈ chainBytes := by
  unfold chainCounts chainDocCounts at occurs
  by_cases inChain : b.toNat ≤ 32
  · refine List.mem_cons_of_mem _ (List.mem_map.mpr ⟨b.toNat, List.mem_range.mpr (by omega), ?_⟩)
    exact UInt8.ofNat_toNat
  · have notValue : ¬ (1 ≤ b.toNat ∧ b.toNat ≤ 32) := by omega
    by_cases last : b = 255
    · rw [last]
      exact List.mem_cons_self
    · have notZero : b ≠ 0 := fun zero => inChain (by simp [zero])
      simp [notValue, last, notZero] at occurs

/-! ### The wavelet tree misreads `0x00` -/

/-- Over a text with the chain's byte counts, the built tree's `access` at a
position of `0x00` returns byte 32, or fails; never `0x00`. -/
theorem access_misreads_terminator {data : List UInt8} (counts : ∀ b, data.count b = chainCounts b)
    {tree : HuffmanWaveletTree} (built : HuffmanWaveletTree.build data = some tree)
    {pos : Nat} (terminator : data[pos]? = some 0) : tree.access pos ≠ some 0 := by
  have nonempty : data ≠ [] := List.ne_nil_of_mem (List.mem_of_getElem? terminator)
  have sameCounts : byteCounts data = chainCounts := funext counts
  unfold HuffmanWaveletTree.build at built
  simp only [nonempty, ↓reduceIte, sameCounts, huffmanRoot_chainCounts, Option.bind_eq_bind,
    Option.bind_some] at built
  obtain ⟨⟨nodes, cursors⟩, filled, built⟩ := Option.bind_eq_some_iff.mp built
  cases built
  -- every byte of the text starts its path at the root
  have starts : ∀ b ∈ data, (chainState.codes b).StartsAtRoot := by
    intro b member
    have occurs : 0 < chainCounts b := by rw [← counts b]; exact List.count_pos_iff.mpr member
    obtain ⟨first, fresh⟩ := chainState_startsAtRoot b (mem_chainBytes occurs)
    obtain ⟨head, rest, path⟩ : ∃ head rest, (chainState.codes b).nodePath = head :: rest :=
      List.exists_cons_of_ne_nil fun empty => by simp [empty] at first
    rw [path] at first fresh
    simp only [List.head?_cons, Option.some.injEq] at first
    exact ⟨rest, first ▸ path, by simpa using fresh⟩
  have initial := @rootHolds_start chainState.codes (nodeSizes chainState.codes chainState.nodeCount data)
    chainState.nodeCount (by simp [nodeSizes, chainState_nodeCount]) (by simp [chainState_nodeCount])
  obtain ⟨node, root, _, written, _⟩ := rootHolds_foldlM data starts initial filled
  have off : node.get pos ≠ some true := by
    have := written pos 0 (by simpa using terminator)
    rwa [chainState_terminator_bitAt] at this
  have treeRoot : (nodes.map RankBitVec.buildRankIndex)[0]? = some node.buildRankIndex := by
    simp only [List.getElem?_map]
    simp only at root
    simp [root]
  rcases HuffmanWaveletTree.access_of_left_leaf
      ⟨nodes.map RankBitVec.buildRankIndex, chainState.codes, chainState.children, data.length⟩
      treeRoot (by simpa using off) chainState_root with failed | leaf
  · intro same
    cases failed.symm.trans same
  · intro same
    exact absurd (Option.some.inj (leaf.symm.trans same)) (by decide)

/-! ### The FM-index misreads its BWT -/

theorem count_concatDocs_chain (rowId : UInt64) {doc : List UInt8} (counts : ∀ b, doc.count b = chainDocCounts b)
    (b : UInt8) : (concatDocs [(rowId, doc)]).count b = chainCounts b := by
  simp only [concatDocs, sentinelByte, List.flatMap_cons, List.flatMap_nil, List.append_nil, List.count_append,
    List.count_singleton, counts, chainCounts]
  by_cases zero : b = 0
  · simp [zero]
  · by_cases last : b = 255
    · simp [last]
    · simp [zero, last, Ne.symm zero, Ne.symm last]

/-- The FM-index of one document with the chain's byte counts, built on any
suffix array, misreads its BWT: at the position of the whole text's suffix,
where the BWT holds the terminator `0x00`, `access` does not return `0x00`. -/
theorem build_misreads_terminator (libsais : List UInt8 → List Nat)
    (suffix_array : ∀ text, (libsais text).Perm (List.range text.length))
    (rowId : UInt64) {doc : List UInt8} (counts : ∀ b, doc.count b = chainDocCounts b) :
    ∃ pos, (buildSuffixArray libsais (concatDocs [(rowId, doc)]))[pos]? = some 0 ∧
      ∀ index, FMIndex.build libsais [(rowId, doc)] = some index → index.wavelet.access pos ≠ some 0 := by
  have nonempty : concatDocs [(rowId, doc)] ≠ [] := by simp [concatDocs]
  have perm := suffix_array (concatDocs [(rowId, doc)])
  have sa : buildSuffixArray libsais (concatDocs [(rowId, doc)]) = libsais (concatDocs [(rowId, doc)]) := by
    simp [buildSuffixArray, nonempty]
  -- the suffix of the whole text, starting at 0, has some position in the suffix array
  obtain ⟨pos, whole⟩ : ∃ pos, (libsais (concatDocs [(rowId, doc)]))[pos]? = some 0 :=
    List.mem_iff_getElem?.mp (perm.mem_iff.mpr (List.mem_range.mpr (List.length_pos_iff.mpr nonempty)))
  refine ⟨pos, sa ▸ whole, fun index built => ?_⟩
  unfold FMIndex.build at built
  simp only [List.cons_ne_nil, ↓reduceIte, sa, Option.bind_eq_bind, Option.bind_eq_some_iff,
    Option.some.injEq] at built
  obtain ⟨bwt, read, wavelet, waveletBuilt, rfl⟩ := built
  have bwtCounts : ∀ b, bwt.count b = chainCounts b := fun b => by
    rw [(bwt_perm nonempty perm read).count_eq, count_concatDocs_chain rowId counts]
  -- the BWT byte there is the text's last, the terminator
  have terminator : bwt[pos]? = some 0 := by
    rw [Library.getElem?_of_mapM_eq_some read, whole]
    simp [concatDocs]
  exact access_misreads_terminator bwtCounts waveletBuilt terminator

/-- A document with the chain's byte counts, about 14.9 million bytes: byte
`k + 1` repeated `fib (k + 3)` times, for `k` below 32. -/
def chainDoc : List UInt8 := (List.range 32).flatMap fun k => List.replicate (Nat.fib (k + 3)) (k + 1).toUInt8

set_option maxRecDepth 4000 in
theorem count_chainDoc (b : UInt8) : chainDoc.count b = chainDocCounts b := by
  simp only [chainDoc, List.count_flatMap, List.count_replicate, Function.comp_def]
  -- the count of each byte is a sum of 32 terms, evaluated for every byte
  have every : ∀ n < 256, ((List.range 32).map fun k =>
      if ((k + 1).toUInt8 == n.toUInt8) = true then Nat.fib (k + 3) else 0).sum = chainDocCounts n.toUInt8 := by
    decide
  rw [← @UInt8.ofNat_toNat b]
  exact every b.toNat b.toNat_lt

theorem build_misreads_terminator_at_chainDoc :
    ((∀ text, (sortSuffixes text).Perm (List.range text.length)) ∧ ∀ b, chainDoc.count b = chainDocCounts b) ∧
    ∃ pos, (buildSuffixArray sortSuffixes (concatDocs [(0, chainDoc)]))[pos]? = some 0 ∧
      ∀ index, FMIndex.build sortSuffixes [(0, chainDoc)] = some index → index.wavelet.access pos ≠ some 0 :=
  ⟨⟨perm_sortSuffixes, count_chainDoc⟩, build_misreads_terminator sortSuffixes perm_sortSuffixes 0 count_chainDoc⟩

end Lance.Index.Fm
