import Lance.Index.Fm.RankBitVec
import Lance.Library.OptionList

/-! The Huffman-shaped wavelet tree over the BWT (`HuffmanWaveletTree` in
`scalar/fmindex.rs`). `build` makes a Huffman tree from the byte counts with
a `BinaryHeap`, numbers its internal nodes in preorder while `assign` gives
every leaf its code (`bits`, `length` and the ids of the nodes on its path),
and then stores at each node, in text order, the code bit of every byte that
passes through it. `access` walks down by the stored bits; `rank` and
`rank_pair` walk down a byte's path by its code bits.

A code's `bits` is a `u32` built by `bits << 1`, and the bit of level `level`
is read as `bits >> (length - 1 - level)`; both are the release build's
operations: the shift drops what leaves the word and the shift amount is
taken modulo 32. -/

namespace Lance.Index.Fm

structure HuffmanCode where
  bits : UInt32
  length : UInt8
  nodePath : List Nat

/-- `HuffmanCode::default`: the code of a byte that does not occur. -/
def HuffmanCode.default : HuffmanCode := ⟨0, 0, []⟩

inductive WaveletChild where
  | node (idx : Nat)
  | leaf (byte : UInt8)
  deriving DecidableEq

inductive HuffNode where
  | leaf (byte : UInt8)
  | internal (left right : HuffNode)
  deriving DecidableEq

/-- `HuffmanWaveletTree`; `codes` is the array of 256 codes indexed by byte. -/
structure HuffmanWaveletTree where
  nodes : List RankBitVec
  codes : UInt8 → HuffmanCode
  children : List (WaveletChild × WaveletChild)
  len : Nat

/-- The tree of an empty text. -/
def HuffmanWaveletTree.empty : HuffmanWaveletTree := ⟨[], fun _ => .default, [], 0⟩

/-! ### The Huffman tree -/

abbrev HeapEntry := Nat × Nat × HuffNode

/-- The order the heap of `(Reverse(f), Reverse(tie), node)` pops in: least
count first, then least tie number (nodes compare equal). -/
def popsBefore (a b : HeapEntry) : Bool := a.1 < b.1 || (a.1 == b.1 && a.2.1 ≤ b.2.1)

/-- `BinaryHeap::push`, the heap kept as a list in pop order. -/
def heapPush (entry : HeapEntry) : List HeapEntry → List HeapEntry
  | [] => [entry]
  | head :: rest => if popsBefore entry head then entry :: head :: rest else head :: heapPush entry rest

/-- The `while heap.len() > 1` loop: merge the two entries popped first under
a new internal node with the next tie number. The fuel is the heap's size,
which every merge lowers by one. -/
def mergeLoop : Nat → List HeapEntry → Nat → List HeapEntry
  | fuel + 1, (f1, _, left) :: (f2, _, right) :: rest, tie =>
    mergeLoop fuel (heapPush (f1 + f2, tie, .internal left right) rest) (tie + 1)
  | _, heap, _ => heap

/-- The byte counts of `build`: `freq[b]` after counting every byte. -/
def byteCounts (data : List UInt8) (byte : UInt8) : Nat := data.count byte

/-- The heap `build` starts from, given the counts `freq`: one leaf per
occurring byte, by increasing byte, with tie numbers in that order. -/
def initialHeap (freq : UInt8 → Nat) : List HeapEntry :=
  (((List.range 256).map Nat.toUInt8).filter fun v => 0 < freq v).zipIdx.foldl
    (fun heap (v, tie) => heapPush (freq v, tie, .leaf v) heap) []

/-- The root of the Huffman tree of the counts `freq`; a single occurring byte
is paired with a leaf for byte 255 of count 0, so that the root is internal. -/
def huffmanRoot (freq : UInt8 → Nat) : Option HuffNode :=
  let heap := initialHeap freq
  let tie := heap.length
  let (heap, tie) := match heap with
    | [(f, _, node)] => (heapPush (f, tie + 1, node) [(0, tie, .leaf 255)], tie + 2)
    | heap => (heap, tie)
  match mergeLoop heap.length heap tie with
  | [(_, _, root)] => some root
  | _ => none

/-! ### Codes and node numbering -/

/-- What `assign` threads through the tree: the next node id, the codes so
far and the children of each numbered node. -/
structure AssignState where
  nodeCount : Nat
  codes : UInt8 → HuffmanCode
  children : List (WaveletChild × WaveletChild)

/-- `assign`: a leaf records its code; an internal node takes the next id,
reserves its entry in `children`, and fills it once both subtrees are done. -/
def assign : HuffNode → UInt32 → UInt8 → List Nat → AssignState → WaveletChild × AssignState
  | .leaf byte, bits, len, path, state =>
    (.leaf byte, { state with codes := fun c => if c = byte then ⟨bits, len, path⟩ else state.codes c })
  | .internal left right, bits, len, path, state =>
    let my := state.nodeCount
    let state := { state with nodeCount := my + 1, children := state.children ++ [(.leaf 0, .leaf 0)] }
    let (lc, state) := assign left (bits <<< 1) (len + 1) (path ++ [my]) state
    let (rc, state) := assign right ((bits <<< 1) ||| 1) (len + 1) (path ++ [my]) state
    (.node my, { state with children := state.children.set my (lc, rc) })

/-- The bit of a code at `level`, as `build`, `rank` and `rank_pair` read it:
`(bits >> (length - 1 - level)) & 1`. -/
def HuffmanCode.bitAt (code : HuffmanCode) (level : Nat) : Bool :=
  (code.bits >>> (code.length - 1 - level.toUInt8).toUInt32) &&& 1 == 1

/-! ### Building the nodes -/

/-- `node_sizes`: how many bytes of the text pass through each node. -/
def nodeSizes (codes : UInt8 → HuffmanCode) (nodeCount : Nat) (data : List UInt8) : List Nat :=
  (List.range nodeCount).map fun nid => (data.filter fun b => nid ∈ (codes b).nodePath).length

/-- `nodes[nid].set(cursor)` when `bit` is one. -/
def markBit (bit : Bool) (nodes : List RankBitVec) (nid : Nat) (node : RankBitVec) (cursor : Nat) :
    Option (List RankBitVec) :=
  if bit then (node.set cursor).map (nodes.set nid) else some nodes

/-- One level of the filling loop: at node `nid`, set the node's next bit when
the code bit at `level` is one, and advance that node's cursor. -/
def fillLevel (code : HuffmanCode) : List RankBitVec × List Nat → Nat × Nat → Option (List RankBitVec × List Nat)
  | (nodes, cursors), (nid, level) => do
    let node ← nodes[nid]?
    let cursor ← cursors[nid]?
    let nodes ← markBit (code.bitAt level) nodes nid node cursor
    some (nodes, cursors.set nid (cursor + 1))

def fillByte (code : HuffmanCode) (filled : List RankBitVec × List Nat) : Option (List RankBitVec × List Nat) :=
  code.nodePath.zipIdx.foldlM (fillLevel code) filled

/-- `HuffmanWaveletTree::build`. -/
def HuffmanWaveletTree.build (data : List UInt8) : Option HuffmanWaveletTree :=
  if data = [] then some .empty
  else do
    let root ← huffmanRoot (byteCounts data)
    let (_, state) := assign root 0 0 [] ⟨0, fun _ => .default, []⟩
    let sizes := nodeSizes state.codes state.nodeCount data
    let (nodes, _) ← data.foldlM (fun filled b => fillByte (state.codes b) filled)
      (sizes.map RankBitVec.new, List.replicate state.nodeCount 0)
    some ⟨nodes.map RankBitVec.buildRankIndex, state.codes, state.children, data.length⟩

/-! ### Queries -/

namespace HuffmanWaveletTree

variable (tree : HuffmanWaveletTree)

/-- The descent of `access` from node `nodeIdx` at position `pos`. The fuel
bounds the number of nodes visited; the loop of the source has none, and on a
tree whose children have larger ids than their parent the node count is
enough. -/
def accessLoop : Nat → Nat → Nat → Option UInt8
  | 0, _, _ => none
  | fuel + 1, nodeIdx, pos => do
    let node ← tree.nodes[nodeIdx]?
    let bit ← node.get pos
    let (left, right) ← tree.children[nodeIdx]?
    if bit then do
      let pos ← node.rank1 pos
      match right with
      | .leaf b => some b
      | .node next => accessLoop fuel next pos
    else do
      let pos ← node.rank0 pos
      match left with
      | .leaf b => some b
      | .node next => accessLoop fuel next pos

/-- `access`: the byte at `pos` of the text the tree was built from. -/
def access (pos : Nat) : Option UInt8 :=
  if tree.nodes = [] then some 0 else tree.accessLoop tree.nodes.length 0 pos

/-- One level of `rank` and `rank_pair`: follow the code bit at this node. -/
def rankStep (code : HuffmanCode) (nid level pos : Nat) : Option Nat := do
  let node ← tree.nodes[nid]?
  if code.bitAt level then node.rank1 pos else node.rank0 pos

/-- `rank`: the number of occurrences of `c` in `[0, pos)`. -/
def rank (c : UInt8) (pos : Nat) : Option Nat :=
  let code := tree.codes c
  if code.length = 0 then some 0
  else do
    let (lo, hi) ← code.nodePath.zipIdx.foldlM (fun (lo, hi) (nid, level) => do
      let lo ← tree.rankStep code nid level lo
      let hi ← tree.rankStep code nid level hi
      some (lo, hi)) (0, pos)
    some (hi - lo)

/-- `rank_pair`: the ranks of `c` at `lo` and at `hi` in one descent. -/
def rankPair (c : UInt8) (lo hi : Nat) : Option (Nat × Nat) :=
  let code := tree.codes c
  if code.length = 0 then some (0, 0)
  else do
    let (s, l, h) ← code.nodePath.zipIdx.foldlM (fun (s, l, h) (nid, level) => do
      let s ← tree.rankStep code nid level s
      let l ← tree.rankStep code nid level l
      let h ← tree.rankStep code nid level h
      some (s, l, h)) (0, lo, hi)
    some (l - s, h - s)

/-- `access` at a position whose root bit is not on goes to the root's left
child; when that child is a leaf, `access` returns the leaf's byte, or fails. -/
theorem access_of_left_leaf {node : RankBitVec} (root : tree.nodes[0]? = some node) {pos : Nat}
    (off : node.get pos ≠ some true) {byte : UInt8} {right : WaveletChild}
    (leftLeaf : tree.children[0]? = some (.leaf byte, right)) :
    tree.access pos = none ∨ tree.access pos = some byte := by
  obtain ⟨more, counted⟩ : ∃ more, tree.nodes.length = more + 1 :=
    Nat.exists_eq_add_one_of_ne_zero (by simpa using List.ne_nil_of_mem (List.mem_of_getElem? root))
  have nonempty : tree.nodes ≠ [] := List.ne_nil_of_mem (List.mem_of_getElem? root)
  unfold access accessLoop
  simp only [nonempty, ↓reduceIte, counted, root, Option.bind_eq_bind, Option.bind_some, leftLeaf]
  cases found : node.get pos with
  | none => simp
  | some bit =>
    cases bit with
    | true => exact absurd found off
    | false =>
      cases node.rank0 pos with
      | none => simp
      | some _ => simp

end HuffmanWaveletTree

/-! ### The bits at the root

Every code of the tree starts at the root, node 0, and does not come back to
it; the filling loop therefore writes at the root, in text order, the level-0
bit of each byte's code. -/

def HuffmanCode.StartsAtRoot (code : HuffmanCode) : Prop :=
  ∃ rest, code.nodePath = 0 :: rest ∧ 0 ∉ rest

theorem fillLevel_other {code : HuffmanCode} {filled next : List RankBitVec × List Nat} {nid level : Nat}
    (other : nid ≠ 0) (stepped : fillLevel code filled (nid, level) = some next) :
    next.1[0]? = filled.1[0]? ∧ next.2[0]? = filled.2[0]? := by
  obtain ⟨nodes, cursors⟩ := filled
  simp only [fillLevel, Option.bind_eq_bind, Option.bind_eq_some_iff, Option.some.injEq] at stepped
  obtain ⟨node, _, cursor, _, marked, marking, done⟩ := stepped
  subst done
  refine ⟨?_, by simp [other]⟩
  unfold markBit at marking
  split at marking
  · obtain ⟨_, _, rfl⟩ := Option.map_eq_some_iff.mp marking
    simp [other]
  · cases marking
    rfl

/-- The level at the root writes the code's level-0 bit at the root's cursor
and advances it. -/
theorem fillLevel_root {code : HuffmanCode} {filled next : List RankBitVec × List Nat} {node : RankBitVec}
    {cursor : Nat} (found : filled.1[0]? = some node) (atCursor : filled.2[0]? = some cursor)
    (stepped : fillLevel code filled (0, 0) = some next) :
    ∃ written, next.1[0]? = some written ∧ next.2[0]? = some (cursor + 1) ∧
      ∀ pos, written.get pos = if pos = cursor ∧ code.bitAt 0 = true then some true else node.get pos := by
  obtain ⟨nodes, cursors⟩ := filled
  simp only [fillLevel, Option.bind_eq_bind, found, atCursor, Option.bind_some, Option.bind_eq_some_iff,
    Option.some.injEq] at stepped
  obtain ⟨marked, marking, done⟩ := stepped
  subst done
  have inside : 0 < cursors.length := (List.getElem?_eq_some_iff.mp atCursor).1
  have cursorMoved : (cursors.set 0 (cursor + 1))[0]? = some (cursor + 1) := by simp [inside]
  unfold markBit at marking
  split at marking
  · rename_i on
    obtain ⟨written, setDone, rfl⟩ := Option.map_eq_some_iff.mp marking
    have rootInside : 0 < nodes.length := (List.getElem?_eq_some_iff.mp found).1
    refine ⟨written, by simp [rootInside], cursorMoved, fun pos => ?_⟩
    rw [RankBitVec.get_set setDone]
    simp [on]
  · rename_i off
    cases marking
    exact ⟨node, found, cursorMoved, fun pos => by simp [off]⟩

/-- A byte whose code starts at the root writes its level-0 bit at the
root's cursor and advances it; the deeper levels do not touch the root. -/
theorem fillByte_root {code : HuffmanCode} (starts : code.StartsAtRoot)
    {filled next : List RankBitVec × List Nat} {node : RankBitVec} {cursor : Nat}
    (found : filled.1[0]? = some node) (atCursor : filled.2[0]? = some cursor)
    (stepped : fillByte code filled = some next) :
    ∃ written, next.1[0]? = some written ∧ next.2[0]? = some (cursor + 1) ∧
      ∀ pos, written.get pos = if pos = cursor ∧ code.bitAt 0 = true then some true else node.get pos := by
  obtain ⟨rest, path, fresh⟩ := starts
  unfold fillByte at stepped
  rw [path, List.zipIdx_cons, List.foldlM_cons] at stepped
  obtain ⟨middle, first, later⟩ := Option.bind_eq_some_iff.mp stepped
  obtain ⟨written, root, moved, bits⟩ := fillLevel_root found atCursor first
  -- the deeper levels are at nodes of `rest`, none of which is the root
  have kept := Library.optionFoldlM_invariant
    (fun state => state.1[0]? = some written ∧ state.2[0]? = some (cursor + 1)) (rest.zipIdx 1)
    (fun entry member state after holds stepped => by
      obtain ⟨nid, level⟩ := entry
      have other : nid ≠ 0 := fun same => fresh (same ▸ List.fst_mem_of_mem_zipIdx member)
      obtain ⟨sameNodes, sameCursors⟩ := fillLevel_other other stepped
      exact ⟨sameNodes.trans holds.1, sameCursors.trans holds.2⟩)
    ⟨root, moved⟩ later
  exact ⟨written, kept.1, kept.2, bits⟩

/-- What the filling loop has written at the root after the bytes `done`:
at each of their positions the level-0 bit of the byte's code, never its
opposite, and no bit after them. -/
def RootHolds (codes : UInt8 → HuffmanCode) (done : List UInt8) (filled : List RankBitVec × List Nat) : Prop :=
  ∃ node, filled.1[0]? = some node ∧ filled.2[0]? = some done.length ∧
    (∀ j byte, done[j]? = some byte → node.get j ≠ some (!(codes byte).bitAt 0)) ∧
    ∀ j, done.length ≤ j → node.get j ≠ some true

theorem rootHolds_start (codes : UInt8 → HuffmanCode) {sizes : List Nat} {nodeCount : Nat}
    (some_node : 0 < sizes.length) (some_cursor : 0 < nodeCount) :
    RootHolds codes [] (sizes.map RankBitVec.new, List.replicate nodeCount 0) := by
  refine ⟨RankBitVec.new sizes[0], by simp [some_node], by simp [some_cursor], by simp, ?_⟩
  intro j _
  exact RankBitVec.get_new_ne_true _ j

/-- One byte of the filling loop keeps `RootHolds`, one byte further. -/
theorem rootHolds_fillByte {codes : UInt8 → HuffmanCode} {done : List UInt8} {byte : UInt8}
    (starts : (codes byte).StartsAtRoot) {filled next : List RankBitVec × List Nat}
    (holds : RootHolds codes done filled) (stepped : fillByte (codes byte) filled = some next) :
    RootHolds codes (done ++ [byte]) next := by
  obtain ⟨node, found, atCursor, written, beyond⟩ := holds
  obtain ⟨node', root, moved, bits⟩ := fillByte_root starts found atCursor stepped
  refine ⟨node', root, by simpa using moved, fun j other member => ?_, fun j after => ?_⟩
  · rw [bits j]
    by_cases last : j = done.length
    · subst last
      have same : byte = other := by simpa using member
      subst same
      cases bit : (codes byte).bitAt 0 with
      | true => simp
      | false => simpa using beyond done.length (Nat.le_refl _)
    · have earlier : j < done.length := by
        have := (List.getElem?_eq_some_iff.mp member).1
        simp at this
        omega
      have inDone : done[j]? = some other := by
        rw [List.getElem?_append_left earlier] at member
        exact member
      simp only [last, false_and, ↓reduceIte]
      exact written j other inDone
  · rw [bits j]
    have past : j ≠ done.length := by simp at after; omega
    simp only [past, false_and, ↓reduceIte]
    exact beyond j (by simp at after; omega)

theorem rootHolds_foldlM {codes : UInt8 → HuffmanCode} :
    ∀ (rest : List UInt8) {done : List UInt8} {filled final : List RankBitVec × List Nat},
      (∀ byte ∈ rest, (codes byte).StartsAtRoot) → RootHolds codes done filled →
      rest.foldlM (fun filled byte => fillByte (codes byte) filled) filled = some final →
      RootHolds codes (done ++ rest) final := by
  intro rest
  induction rest with
  | nil =>
    intro done filled final _ holds run
    cases run
    simpa using holds
  | cons byte rest ih =>
    intro done filled final starts holds run
    obtain ⟨next, stepped, later⟩ := Option.bind_eq_some_iff.mp run
    have kept := rootHolds_fillByte (starts byte List.mem_cons_self) holds stepped
    simpa using ih (fun other member => starts other (List.mem_cons_of_mem _ member)) kept later

end Lance.Index.Fm
