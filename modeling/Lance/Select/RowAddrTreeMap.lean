import Mathlib.Data.FinEnum
import Mathlib.Data.List.AList
import Mathlib.Data.Finset.Sort
import Lance.Library.KeyedMap
import Lance.Library.Runs
import Lance.Library.WordArith

/-! Row-address selections of `lance-select`. A `RowAddrTreeMap` maps each
fragment id to the rows selected in it: the whole fragment, or the physical
offsets held in a roaring bitmap. Here are its operations as `mask.rs` writes
them: the point updates, and the set operators, each a loop over the entries
of one map that rewrites the other in place. -/

namespace Lance.Select

open Lance.Library

abbrev RoaringBitmap := Finset UInt32

/-- `RowAddrSelection`: the rows selected in one fragment. -/
inductive RowAddrSelection where
  | full
  | partialRows (bitmap : RoaringBitmap)
  deriving DecidableEq

/-- `RowAddrTreeMap`: the `BTreeMap<u32, RowAddrSelection>` keyed by fragment
id, as an association list with one entry per key. -/
structure RowAddrTreeMap where
  inner : AList (fun _ : UInt32 => RowAddrSelection)

/-- `get_fragment_bitmap`: the bitmap of a partially selected fragment. A fully
selected fragment, like an absent one, has none. -/
def RowAddrTreeMap.getFragmentBitmap (map : RowAddrTreeMap) (fragmentId : UInt32) :
    Option RoaringBitmap :=
  match map.inner.lookup fragmentId with
  | none => none
  | some .full => none
  | some (.partialRows set) => some set

/-- `RoaringBitmap::insert_range(start..=stop)`: the bitmap with the range
added, and how many of the range's values it lacked. -/
def RoaringBitmap.insertRange (set : RoaringBitmap) (start stop : UInt32) : RoaringBitmap × UInt64 :=
  let range := Finset.univ.filter fun value => start ≤ value ∧ value ≤ stop
  (set ∪ range, UInt64.ofNat (range \ set).card)

def RoaringBitmap.toSortedList (set : RoaringBitmap) : List UInt32 :=
  ((set.image UInt32.toNat).sort (· ≤ ·)).map UInt32.ofNat

/-- The maximal runs of consecutive values of a bitmap, in increasing order, as
roaring's `next_range` yields them: each from its first to its last value. -/
def RoaringBitmap.runs (set : RoaringBitmap) : List (UInt32 × UInt32) :=
  (groupRuns ((set.image UInt32.toNat).sort (· ≤ ·))).map fun run => (UInt32.ofNat run.1, UInt32.ofNat (run.2 - 1))

/-- `std::ops::Bound<&u64>`: one end of a `RangeBounds<u64>`. -/
inductive Bound where
  | included (value : UInt64)
  | excluded (value : UInt64)
  | unbounded
  deriving DecidableEq, Repr

namespace RowAddrSelection

/-- Whether one selection holds a row offset; a full fragment holds every one. -/
def contains : RowAddrSelection → UInt32 → Bool
  | .full, _ => true
  | .partialRows bitmap, row => decide (row ∈ bitmap)

/-- The closure of the `filter_map` in `union_all`: the bitmap of a partial
selection, none for a full one. -/
def partialBitmap : RowAddrSelection → Option RoaringBitmap
  | .full => none
  | .partialRows bitmap => some bitmap

/-- `RowAddrSelection::union_all`: full when any of the selections is, else
one bitmap holding all of theirs. -/
def unionAll (selections : List RowAddrSelection) : RowAddrSelection :=
  -- the `filter_map` pass both collects the bitmaps and records a full selection
  let isFull := selections.any fun selection => (partialBitmap selection).isNone
  let res := RowAddrSelection.partialRows ((selections.filterMap partialBitmap).foldl (· ∪ ·) ∅)
  if isFull then .full else res

def nonEmpty : RowAddrSelection → Bool
  | .partialRows set => !decide (set = ∅)
  | .full => true

end RowAddrSelection

namespace RowAddrTreeMap

abbrev Inner := AList (fun _ : UInt32 => RowAddrSelection)

/-- `RowAddrTreeMap::new`: the empty set. -/
def new : RowAddrTreeMap := ⟨∅⟩

/-- `iter`: the entries in key order, as the `BTreeMap` yields them. -/
def iter (map : RowAddrTreeMap) : List (Σ _ : UInt32, RowAddrSelection) :=
  map.inner.entries.mergeSort fun first second => decide (first.1 ≤ second.1)

def isEmpty (map : RowAddrTreeMap) : Bool := map.inner.entries.isEmpty

/-- `len`: the number of rows selected, none when a fragment is selected whole,
its size being unknown. The `u64` sum is taken in `Nat`. -/
def len (map : RowAddrTreeMap) : Option Nat :=
  map.inner.entries.foldlM (fun acc (entry : Σ _ : UInt32, RowAddrSelection) =>
    match entry.2 with
    | .full => none
    | .partialRows indices => some (indices.card + acc)) 0

/-- The derived `PartialEq`: a `BTreeMap` keeps its entries in key order, so
two maps are equal when they hold the same entries. -/
def Equiv (map other : RowAddrTreeMap) : Prop := map.inner.entries.Perm other.inner.entries

instance (map other : RowAddrTreeMap) : Decidable (map.Equiv other) :=
  inferInstanceAs (Decidable (map.inner.entries.Perm other.inner.entries))

/-- `contains`: the upper half of the row address names the fragment, the
lower half the row in it. -/
def contains (map : RowAddrTreeMap) (row : UInt64) : Bool :=
  let upper := (row >>> 32).toUInt32
  let lower := row.toUInt32
  match map.inner.lookup upper with
  | none => false
  | some .full => true
  | some (.partialRows fragmentSet) => decide (lower ∈ fragmentSet)

/-- `insert`: add one row; the flag says whether it was new. -/
def insert (map : RowAddrTreeMap) (value : UInt64) : RowAddrTreeMap × Bool :=
  let fragment := (value >>> 32).toUInt32
  let rowAddr := value.toUInt32
  match map.inner.lookup fragment with
  | none => (⟨map.inner.insert fragment (.partialRows {rowAddr})⟩, true)
  | some .full => (map, false)
  | some (.partialRows set) =>
    (⟨map.inner.insert fragment (.partialRows (Insert.insert rowAddr set))⟩, decide (rowAddr ∉ set))

/-- `remove`: drop one row; the flag says whether it was there. A full
fragment becomes the full bitmap less that row, and a bitmap left empty takes
its fragment out of the map. -/
def remove (map : RowAddrTreeMap) (row : UInt64) : RowAddrTreeMap × Bool :=
  let upper := (row >>> 32).toUInt32
  let lower := row.toUInt32
  match map.inner.lookup upper with
  | none => (map, false)
  | some .full => (⟨map.inner.insert upper (.partialRows (Finset.univ.erase lower))⟩, true)
  | some (.partialRows lowerSet) =>
    let removed := decide (lower ∈ lowerSet)
    let lowerSet := lowerSet.erase lower
    if lowerSet = ∅ then (⟨map.inner.erase upper⟩, removed)
    else (⟨map.inner.insert upper (.partialRows lowerSet)⟩, removed)

def orFragment (inner : Inner) (fragment : UInt32) (rhsSet : RowAddrSelection) : Inner :=
  match inner.lookup fragment with
  | some .full => inner
  | some (.partialRows lhsBitmap) =>
    match rhsSet with
    | .full => inner.insert fragment .full
    | .partialRows rhsSet => inner.insert fragment (.partialRows (lhsBitmap ∪ rhsSet))
  | none => inner.insert fragment rhsSet

/-- `BitOrAssign`: `self |= rhs`, one fragment of `rhs` at a time. -/
def bitorAssign (self rhs : RowAddrTreeMap) : RowAddrTreeMap :=
  ⟨rhs.iter.foldl (fun inner entry => orFragment inner entry.1 entry.2) self.inner⟩

/-- `BitOr`: `self | rhs`. -/
instance : OrOp RowAddrTreeMap := ⟨bitorAssign⟩

def andFragment (rhs : Inner) (fragment : UInt32) (lhsSet : RowAddrSelection) : RowAddrSelection :=
  match lhsSet, rhs.lookup fragment with
  | _, none => lhsSet
  -- everything selected on the right: the left stays as it is
  | _, some .full => lhsSet
  | .partialRows lhsSet, some (.partialRows rhsSet) => .partialRows (lhsSet ∩ rhsSet)
  | .full, some (.partialRows rhsSet) => .partialRows rhsSet

/-- `BitAndAssign`: drop the fragments `rhs` lacks, intersect the others, then
drop the bitmaps left empty. -/
def bitandAssign (self rhs : RowAddrTreeMap) : RowAddrTreeMap :=
  let kept := retain (fun fragment _ => decide (fragment ∈ rhs.inner)) self.inner
  let intersected := mapValues (andFragment rhs.inner) kept
  ⟨retain (fun _ set => set.nonEmpty) intersected⟩

/-- `BitAnd`: `self & rhs`. -/
instance : AndOp RowAddrTreeMap := ⟨bitandAssign⟩

/-- The body of the `-=` loop for one fragment of the right-hand side. Of the
two ways to leave a bitmap, only the second drops it when it is empty. -/
def subFragment (inner : Inner) (fragment : UInt32) (rhsSet : RowAddrSelection) : Inner :=
  match inner.lookup fragment with
  | none => inner
  | some .full =>
    match rhsSet with
    | .full => inner.erase fragment
    | .partialRows rhsSet => inner.insert fragment (.partialRows (Finset.univ \ rhsSet))
  | some (.partialRows lhsSet) =>
    match rhsSet with
    | .full => inner.erase fragment
    | .partialRows rhsSet =>
      let lhsSet := lhsSet \ rhsSet
      if lhsSet = ∅ then inner.erase fragment else inner.insert fragment (.partialRows lhsSet)

/-- `SubAssign`: `self -= rhs`, one fragment of `rhs` at a time. -/
def subAssign (self rhs : RowAddrTreeMap) : RowAddrTreeMap :=
  ⟨rhs.iter.foldl (fun inner entry => subFragment inner entry.1 entry.2) self.inner⟩

/-- `Sub`: `self - rhs`. -/
instance : Sub RowAddrTreeMap := ⟨subAssign⟩

/-- The grouping pass of `union_all`: each fragment's selections across the
maps, in the order the maps come. -/
def groupSelections (other : List RowAddrTreeMap) : AList (fun _ : UInt32 => List RowAddrSelection) :=
  other.foldl (fun newMap map =>
    map.iter.foldl (fun newMap entry =>
      newMap.insert entry.1 ((newMap.lookup entry.1).getD [] ++ [entry.2])) newMap) ∅

/-- `union_all`: each fragment's selections gathered, then united. -/
def unionAll (other : List RowAddrTreeMap) : RowAddrTreeMap :=
  ⟨mapValues (fun _ selections => RowAddrSelection.unionAll selections) (groupSelections other)⟩

/-- `Extend<RowAddrTreeMap>`: a running union. Its loop body is the body of
`|=` with the missing fragment tested first. -/
def extend (self : RowAddrTreeMap) (iter : List RowAddrTreeMap) : RowAddrTreeMap :=
  iter.foldl bitorAssign self

/-- `FromIterator<u64>`: the rows inserted one by one, by the body of `insert`. -/
def fromIter (rows : List UInt64) : RowAddrTreeMap :=
  rows.foldl (fun map row => (map.insert row).1) new

/-- `insert_fragment`: select a whole fragment. -/
def insertFragment (map : RowAddrTreeMap) (fragmentId : UInt32) : RowAddrTreeMap :=
  ⟨map.inner.insert fragmentId .full⟩

/-- `insert_bitmap`: set the rows of one fragment. -/
def insertBitmap (map : RowAddrTreeMap) (fragment : UInt32) (bitmap : RoaringBitmap) : RowAddrTreeMap :=
  ⟨map.inner.insert fragment (.partialRows bitmap)⟩

/-- `into_addr_iter`: the addresses of the rows, fragment by fragment; a fully
selected fragment panics, its size being unknown. -/
def intoAddrIter (map : RowAddrTreeMap) : Option (List UInt64) :=
  (map.iter.mapM fun (entry : Σ _ : UInt32, RowAddrSelection) => match entry.2 with
    | .full => none
    | .partialRows bitmap => some ((RoaringBitmap.toSortedList bitmap).map fun (val : UInt32) => (entry.1.toUInt64 <<< 32) ||| val.toUInt64)).map
    List.flatten

/-- `iter_runs`: the runs of each fragment's rows, fragment by fragment; a fully
selected fragment panics. -/
def iterRuns (map : RowAddrTreeMap) : Option (List (UInt32 × UInt32 × UInt32)) :=
  (map.iter.mapM fun (entry : Σ _ : UInt32, RowAddrSelection) => match entry.2 with
    | .full => none
    | .partialRows bitmap => some ((RoaringBitmap.runs bitmap).map fun run => (entry.1, run))).map List.flatten

/-- A `u64` split as `insert_range` splits it: the upper half names the
fragment, the lower half the row. -/
def splitHighLow (value : UInt64) : UInt32 × UInt32 := ((value >>> 32).toUInt32, value.toUInt32)

/-- The `while` loop of `insert_range`, one fragment a round from `startHigh` up
to `endHigh`. Past `u32::MAX`, `start_high += 1` panics, as in a debug build. -/
def insertRangeLoop (endHigh endLow : UInt32) (map : RowAddrTreeMap) (count : UInt64) (startHigh startLow : UInt32) :
    Option (RowAddrTreeMap × UInt64) :=
  if startHigh ≤ endHigh then
    let start := startLow
    let stop := if startHigh = endHigh then endLow else 0xFFFFFFFF
    let fragment := startHigh
    let (map, count) : RowAddrTreeMap × UInt64 :=
      match map.inner.lookup fragment with
      | none =>
        let (set, inserted) := RoaringBitmap.insertRange ∅ start stop
        (⟨map.inner.insert fragment (.partialRows set)⟩, count + inserted)
      | some .full => (map, count)
      | some (.partialRows set) =>
        let (set, inserted) := RoaringBitmap.insertRange set start stop
        (⟨map.inner.insert fragment (.partialRows set)⟩, count + inserted)
    if _room : startHigh < 0xFFFFFFFF then insertRangeLoop endHigh endLow map count (startHigh + 1) 0
    else none
  else some (map, count)
termination_by 2 ^ 32 - startHigh.toNat
decreasing_by
  have below : startHigh.toNat < 4294967295 := UInt32.lt_iff_toNat_lt.mp _room
  rw [UInt32.toNat_add, UInt32.toNat_one, Nat.mod_eq_of_lt (by omega)]
  omega

/-- `insert_range`: the rows of the range added, and how many were new. -/
def insertRange (map : RowAddrTreeMap) (startBound endBound : Bound) : Option (RowAddrTreeMap × UInt64) :=
  let (startHigh, startLow) := match startBound with
    | .included start => splitHighLow start
    | .excluded start => splitHighLow (saturatingAdd start 1)
    | .unbounded => (0, 0)
  let (endHigh, endLow) := match endBound with
    | .included stop => splitHighLow stop
    | .excluded stop => splitHighLow (saturatingSub stop 1)
    | .unbounded => (0xFFFFFFFF, 0xFFFFFFFF)
  insertRangeLoop endHigh endLow map 0 startHigh startLow

end RowAddrTreeMap

end Lance.Select
