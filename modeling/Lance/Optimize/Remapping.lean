import Lance.Core.RowAddrRemap

/-! `transpose_row_ids_from_digest` of `lance`: the direct form of a rewrite
group's remap. The rewritten addresses, in increasing order, are paired with
the addresses of the new fragments' rows, and the iterator `MissingAddrs` walks
the old fragments' addresses next to the rewritten ones and yields each one they
skip, which the map then marks deleted. The walk takes the next rewritten
address, or `0` once there are none left, as a value that no address expected
can match, which holds only while the rewritten addresses are not empty. -/

namespace Lance.Optimize

open Lance.Library Lance.Core

/-- `FragDigest`: a fragment's id and row counts. -/
structure FragDigest where
  id : UInt64
  physicalRows : UInt64
  numDeletedRows : UInt64

namespace MissingAddrs

/-- The update of `expected_row_addr` and `current_fragment_idx` in one round:
one address on, or to the first address of the next fragment once the address
reached is the current fragment's `physical_rows`. Both steps panic on overflow. -/
def advance (fragments : List FragDigest) (expectedRowAddr currentFragmentIdx : Nat) (physicalRows : UInt64) :
    Option (Nat × Nat) := do
  let next ← debugAdd 64 expectedRowAddr 1
  if next % 2 ^ 32 = physicalRows.toNat then
    match fragments[currentFragmentIdx + 1]? with
    | some following => (·, currentFragmentIdx + 1) <$> debugMul 64 following.id.toNat (2 ^ 32)
    | none => some (next, currentFragmentIdx + 1)
  else some (next, currentFragmentIdx)

theorem advance_progress {fragments : List FragDigest} {expectedRowAddr currentFragmentIdx : Nat}
    {physicalRows : UInt64} {next : Nat × Nat}
    (moved : advance fragments expectedRowAddr currentFragmentIdx physicalRows = some next) :
    next.2 = currentFragmentIdx + 1 ∨ (next.2 = currentFragmentIdx ∧ next.1 = expectedRowAddr + 1 ∧
      expectedRowAddr + 1 < 2 ^ 64) := by
  unfold advance at moved
  by_cases fits : expectedRowAddr + 1 < 2 ^ 64
  · by_cases reached : (expectedRowAddr + 1) % 4294967296 = physicalRows.toNat
    · left
      cases following : fragments[currentFragmentIdx + 1]? <;>
        simp [debugAdd_of_lt fits, reached, following] at moved
      · rw [← moved]
      · obtain ⟨_, _, rfl⟩ := moved
        rfl
    · simp [debugAdd_of_lt fits, reached] at moved
      exact Or.inr ⟨by rw [← moved], by rw [← moved], fits⟩
  · rw [show debugAdd 64 expectedRowAddr 1 = none from if_neg fits] at moved
    cases moved

/-- `MissingAddrs` run to its end by `for_each`: each round takes the value held
back from the round before, or the next rewritten address, or `0` once they run
out; a value that is not the address expected is held back, and that address
is yielded. -/
def loop (fragments : List FragDigest) (rowAddrs : List UInt64) (expectedRowAddr currentFragmentIdx : Nat)
    (last : Option UInt64) : Option (List UInt64) :=
  if inside : currentFragmentIdx < fragments.length then
    let (val, rowAddrs) := match last with
      | some last => (last, rowAddrs)
      | none => (rowAddrs.headD 0, rowAddrs.tail)
    let currentFragment := fragments[currentFragmentIdx]
    match moved : advance fragments expectedRowAddr currentFragmentIdx currentFragment.physicalRows with
    | none => none
    | some next =>
      if val.toNat / 2 ^ 32 ≠ currentFragment.id.toNat ∨ val.toNat ≠ expectedRowAddr then
        (UInt64.ofNat expectedRowAddr :: ·) <$> loop fragments rowAddrs next.1 next.2 (some val)
      else loop fragments rowAddrs next.1 next.2 none
  else some []
termination_by (fragments.length - currentFragmentIdx, 2 ^ 64 - expectedRowAddr)
decreasing_by
  all_goals
    rcases advance_progress moved with onward | ⟨same, step, fits⟩
    · exact Prod.Lex.left _ _ (by omega)
    · rw [same]
      exact Prod.Lex.right _ (by omega)

end MissingAddrs

/-- `transpose_row_ids_from_digest`: the rewritten addresses mapped in order to
the new rows, and the addresses `MissingAddrs` yields mapped to `None`. The
capacity sum panics on overflow, and `MissingAddrs::new` on no old fragment. -/
def transposeRowIdsFromDigest (rowAddrs : Finset UInt64) (oldFragments newFragments : List FragDigest) :
    Option (AList (fun _ : UInt64 => Option UInt64)) := do
  let newAddrs := newFragments.flatMap fun frag =>
    (List.range frag.physicalRows.toUInt32.toNat).map fun offset =>
      some (RowAddress.newFromParts frag.id.toUInt32 (UInt32.ofNat offset)).raw
  let numDeletedRows ← (oldFragments.map fun frag => frag.numDeletedRows.toNat).foldlM (debugAdd 64) 0
  let _expectedSize ← debugAdd 64 rowAddrs.card numDeletedRows
  let sorted := treemapIter rowAddrs
  let mapping := (sorted.zip newAddrs).foldl (fun mapping entry => mapping.insert entry.1 entry.2) ∅
  let firstFrag ← oldFragments.head?
  let expectedRowAddr ← debugMul 64 firstFrag.id.toNat (2 ^ 32)
  let missing ← MissingAddrs.loop oldFragments sorted expectedRowAddr 0 none
  pure (missing.foldl (fun mapping addr => mapping.insert addr none) mapping)

def fragmentZeroDeleted : GroupInput := ⟨∅, [0], []⟩

theorem treemapBitmaps_empty : treemapBitmaps ∅ = [] := by
  simp [treemapBitmaps]

theorem treemapIter_empty : treemapIter ∅ = [] := by
  simp [treemapIter]

/-- With no rewritten row, the walk takes `0` for the next address, and `0` is
the first address it expects when the first old fragment is fragment 0: that
row is not yielded, so the direct map leaves it out, while the compact remap
says it was deleted. -/
theorem transpose_omits_first_row_of_fragment_zero :
    (∃ remap, RowAddrRemap.newCompact [fragmentZeroDeleted] = .ok remap ∧ remap.get 0 = some (some none)) ∧
      ∃ map, transposeRowIdsFromDigest fragmentZeroDeleted.rewrittenOldRowAddrs [⟨0, 1, 1⟩] [] = some map ∧
        (RowAddrRemap.direct map).get 0 = some none := by
  have compact : RowAddrRemap.newCompact [fragmentZeroDeleted] =
      .ok (.compact ⟨[⟨∅, []⟩], AList.singleton 0 0⟩) := by
    simp [RowAddrRemap.newCompact, CompactRowAddrRemap.new, fragmentZeroDeleted, GroupRemap.new,
      GroupRemap.newFragRanges, treemapBitmaps_empty, GroupRemap.oldFragsLoop]
    rfl
  have direct : transposeRowIdsFromDigest ∅ [⟨0, 1, 1⟩] [] = some ∅ := by
    simp [transposeRowIdsFromDigest, treemapIter_empty, debugAdd, debugMul]
    rw [MissingAddrs.loop]
    simp [MissingAddrs.advance, debugAdd]
    rw [MissingAddrs.loop]
    simp
  exact ⟨⟨_, compact, rfl⟩, ⟨_, direct, rfl⟩⟩

end Lance.Optimize
