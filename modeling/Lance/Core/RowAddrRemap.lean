import Mathlib.Data.Finset.Sort
import Mathlib.Data.List.AList
import Lance.Core.RowAddress
import Lance.Library.BinarySearch
import Lance.Library.WordArith

/-! `RowAddrRemap` of `lance-core`: where compaction moved each row of the
fragments it rewrote. The compact form keeps, for each rewrite group, the
rewritten offsets of each old fragment with the count of rewritten rows before
it, and the new fragments with the count of rows written before each; a row's
new address is found from its position among the rewritten rows by a binary
search over those counts. The direct form is the map itself. A lookup says
`none` for an address the remap does not touch, `some none` for a deleted row,
and `some (some addr)` for a moved one. -/

namespace Lance.Core

open Lance.Library

/-- `RoaringTreemap::bitmaps`: the lower halves of the addresses under each
upper half present, in increasing order of the upper half. -/
def treemapBitmaps (addrs : Finset UInt64) : List (UInt32 × Finset UInt32) :=
  (((addrs.image fun (addr : UInt64) => (addr >>> 32).toNat).sort (· ≤ ·)).map UInt32.ofNat).map fun high =>
    (high, (addrs.filter fun (addr : UInt64) => (addr >>> 32).toUInt32 = high).image UInt64.toUInt32)

def treemapIter (addrs : Finset UInt64) : List UInt64 :=
  ((addrs.image UInt64.toNat).sort (· ≤ ·)).map UInt64.ofNat

/-- `RoaringBitmap::rank`: how many values are at most `value`. -/
def rank (bitmap : Finset UInt32) (value : UInt32) : Nat := (bitmap.filter (· ≤ value)).card

/-- `GroupInput`: the rewritten old addresses of one rewrite group, its old
fragments in the order they were read, and its new fragments with their row
counts in the order they were written. -/
structure GroupInput where
  rewrittenOldRowAddrs : Finset UInt64
  oldFragIds : List UInt32
  newFrags : List (UInt32 × UInt32)

/-- `GroupRemap`: each old fragment with rewritten rows, with their offsets and
the count of rewritten rows before it; each new fragment that holds rows, as
`(fragment_id, rewritten_rows_before, physical_rows)`. -/
structure GroupRemap where
  frags : AList (fun _ : UInt32 => Finset UInt32 × Nat)
  newFragRowRanges : List (UInt32 × Nat × UInt32)

namespace GroupRemap

def ascendingOrderError (fragId prev : UInt32) : String :=
  "compaction new fragments must be in ascending id (write) order, but fragment " ++ toString fragId ++
    " follows " ++ toString prev

def outsideOldFragsError (perFrag : List UInt32) (oldFragIds : List UInt32) : String :=
  "compaction rewritten old row addresses reference fragments " ++ toString perFrag ++
    " not in the rewrite group's old fragments " ++ toString oldFragIds

def rowCountError (totalRewrittenOldRows : Nat) (oldFragIds : List UInt32) (totalNewRows : Nat) : String :=
  "compaction rewrote " ++ toString totalRewrittenOldRows ++ " old rows from fragments " ++ toString oldFragIds ++
    " but the new fragments hold " ++ toString totalNewRows ++ " rows"

/-- The loop of `new` over the new fragments: a fragment without rows is
skipped, and the others must come in increasing order of id. Returns the ranges
and the count of all new rows. -/
def newFragRanges : List (UInt32 × UInt32) → Nat → Option UInt32 → Except String (List (UInt32 × Nat × UInt32) × Nat)
  | [], rewrittenRowsBefore, _ => .ok ([], rewrittenRowsBefore)
  | (fragId, physicalRows) :: rest, rewrittenRowsBefore, prevFragId =>
    if physicalRows = 0 then newFragRanges rest rewrittenRowsBefore prevFragId
    else match prevFragId with
      | some prev =>
        if fragId ≤ prev then .error (ascendingOrderError fragId prev)
        else (fun (ranges, total) => ((fragId, rewrittenRowsBefore, physicalRows) :: ranges, total)) <$>
          newFragRanges rest (rewrittenRowsBefore + physicalRows.toNat) (some fragId)
      | none =>
        (fun (ranges, total) => ((fragId, rewrittenRowsBefore, physicalRows) :: ranges, total)) <$>
          newFragRanges rest (rewrittenRowsBefore + physicalRows.toNat) (some fragId)

/-- The loop of `new` over the old fragments: each one with rewritten rows takes
its bitmap out of `per_frag`, with the count of rewritten rows before it. -/
def oldFragsLoop : List UInt32 → AList (fun _ : UInt32 => Finset UInt32) → AList (fun _ : UInt32 => Finset UInt32 × Nat) →
    Nat → AList (fun _ : UInt32 => Finset UInt32) × AList (fun _ : UInt32 => Finset UInt32 × Nat)
  | [], perFrag, frags, _ => (perFrag, frags)
  | fragId :: rest, perFrag, frags, rewrittenRowsBefore =>
    match perFrag.lookup fragId with
    | some bitmap =>
      oldFragsLoop rest (perFrag.erase fragId) (frags.insert fragId (bitmap, rewrittenRowsBefore))
        (rewrittenRowsBefore + bitmap.card)
    | none => oldFragsLoop rest perFrag frags rewrittenRowsBefore

/-- `GroupRemap::new`. -/
def new (input : GroupInput) : Except String GroupRemap := do
  let (newFragRowRanges, totalNewRows) ← newFragRanges input.newFrags 0 none
  let perFrag := (treemapBitmaps input.rewrittenOldRowAddrs).foldl
    (fun perFrag (fragId, bitmap) => perFrag.insert fragId bitmap) ∅
  let (perFrag, frags) := oldFragsLoop input.oldFragIds perFrag ∅ 0
  if !perFrag.entries.isEmpty then throw (outsideOldFragsError perFrag.keys input.oldFragIds)
  let totalRewrittenOldRows := input.rewrittenOldRowAddrs.card
  if totalNewRows ≠ totalRewrittenOldRows then
    throw (rowCountError totalRewrittenOldRows input.oldFragIds totalNewRows)
  pure ⟨frags, newFragRowRanges⟩

/-- `compute_new_addr`: the new fragment whose rows start last at or before the
index, found by `binary_search_by` on the counts before each; `Err(0)` makes
`i - 1` panic. -/
def computeNewAddr (remap : GroupRemap) (rewrittenRowIndex : Nat) : Option UInt64 := do
  let idx ← match binarySearch (remap.newFragRowRanges.map fun range => range.2.1) rewrittenRowIndex with
    | .ok i => some i
    | .error i => debugSub i 1
  let (fragId, rewrittenRowsBefore, _) ← remap.newFragRowRanges[idx]?
  let offset ← debugSub rewrittenRowIndex rewrittenRowsBefore
  pure (RowAddress.newFromParts fragId (UInt32.ofNat offset)).raw

/-- `get`: the new address of a rewritten row, `none` for any other. -/
def get (remap : GroupRemap) (frag offset : UInt32) : Option (Option UInt64) :=
  match remap.frags.lookup frag with
  | some (bitmap, rewrittenRowsBefore) =>
    -- `rank` counts the offset itself, so the row's position is one less
    if offset ∈ bitmap then some <$> remap.computeNewAddr (rewrittenRowsBefore + rank bitmap offset - 1)
    else some none
  | none => some none

end GroupRemap

/-- `CompactRowAddrRemap`: the group remaps, and the group of each old fragment. -/
structure CompactRowAddrRemap where
  groups : List GroupRemap
  fragToGroup : AList (fun _ : UInt32 => Nat)

namespace CompactRowAddrRemap

/-- `new`: a group's old fragments point to it, a later group overriding an
earlier one. -/
def new (groups : List GroupInput) : Except String CompactRowAddrRemap :=
  groups.foldlM (fun remap input => do
    let gi := remap.groups.length
    let fragToGroup := input.oldFragIds.foldl (fun fragToGroup fragId => fragToGroup.insert fragId gi) remap.fragToGroup
    let group ← GroupRemap.new input
    pure ⟨remap.groups ++ [group], fragToGroup⟩) ⟨[], ∅⟩

/-- `get`; the outer `none` is a panic. -/
def get (remap : CompactRowAddrRemap) (addr : UInt64) : Option (Option (Option UInt64)) :=
  let frag := (addr >>> 32).toUInt32
  match remap.fragToGroup.lookup frag with
  | none => some none
  | some gi => do
    let group ← remap.groups[gi]?
    some <$> group.get frag addr.toUInt32

end CompactRowAddrRemap

/-- `RowAddrRemap`: the compact form, or the map itself. -/
inductive RowAddrRemap where
  | compact (remap : CompactRowAddrRemap)
  | direct (map : AList (fun _ : UInt64 => Option UInt64))

namespace RowAddrRemap

/-- `RowAddrRemap::compact`. -/
def newCompact (groups : List GroupInput) : Except String RowAddrRemap :=
  RowAddrRemap.compact <$> CompactRowAddrRemap.new groups

/-- `get`; the outer `none` is a panic. -/
def get : RowAddrRemap → UInt64 → Option (Option (Option UInt64))
  | .compact remap, addr => remap.get addr
  | .direct map, addr => some (map.lookup addr)

end RowAddrRemap

end Lance.Core
