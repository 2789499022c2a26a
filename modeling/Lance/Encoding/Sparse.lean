import Mathlib.Order.Interval.Finset.Nat
import Lance.Library.BinarySearch
import Lance.Library.WordArith

/-! `SparsePositionSet` of the sparse structural layout (`sparse.rs`): a set of
positions in a layer of `domain_len` slots, held as nothing, every slot, one
run of slots or the positions themselves. The set tests compare two sets
constructor by constructor, with `partition_point` over explicit positions,
after checking both against the domain; a validity set answers whether some
positions are all valid by one of the two tests. `usize` is 64 bits wide, so
its conversions to and from `u64` never fail. -/

namespace Lance.Encoding

open Lance.Library

inductive SparsePositionSet where
  | empty
  | all (len : UInt64)
  | range (start len : UInt64)
  | explicit (positions : List UInt64)
  deriving DecidableEq, Repr

namespace SparsePositionSet

def increasingWindows : List UInt64 → Bool
  | previous :: current :: rest => previous < current && increasingWindows (current :: rest)
  | _ => true

def fromPositions (positions : List UInt64) (domainLen : UInt64) (label : String) :
    Except String SparsePositionSet :=
  if positions.isEmpty then .ok .empty
  else if !increasingWindows positions then
    .error ("Sparse structural " ++ label ++ " positions must be strictly increasing")
  else match positions.find? (· ≥ domainLen) with
    | some position =>
      .error ("Sparse structural " ++ label ++ " position " ++ toString position ++ " is outside layer with " ++
        toString domainLen ++ " slots")
    | none => do
      let len ← if positions.length < 2 ^ 64 then pure (UInt64.ofNat positions.length)
        else throw ("Sparse structural " ++ label ++ " position count exceeds u64::MAX")
      let first ← match positions.head? with
        | some first => pure first
        | none => throw ("Sparse structural " ++ label ++ " positions are unexpectedly empty")
      let last ← match positions.getLast? with
        | some last => pure last
        | none => throw ("Sparse structural " ++ label ++ " positions are unexpectedly empty")
      if first == 0 && len == domainLen && domainLen > 0 && last == domainLen - 1 then pure (.all domainLen)
      else if last - first + 1 == len then pure (.range first len)
      else pure (.explicit positions)

/-- `SparsePositionSet::all` (`all` names the constructor): a domain of no
slot gives `Empty`. -/
def ofAll (len : UInt64) : SparsePositionSet := if len == 0 then empty else all len

/-- `SparsePositionSet::range`: a run of no slot gives `Empty`. -/
def ofRange (start len : UInt64) : SparsePositionSet := if len == 0 then empty else range start len

/-- `len`. -/
def len : SparsePositionSet → UInt64
  | empty => 0
  | all len | range _ len => len
  | explicit positions => UInt64.ofNat positions.length

def isEmpty (set : SparsePositionSet) : Bool := set.len == 0

/-- `materialize_range`: the positions `start..start + len`. -/
def materializeRange (start len : UInt64) : Except String (List UInt64) :=
  match checkedAdd start len with
  | none => .error "Sparse structural position range overflows"
  | some stop => .ok ((List.range' start.toNat (stop.toNat - start.toNat)).map UInt64.ofNat)

def materialize : SparsePositionSet → Except String (List UInt64)
  | empty => .ok []
  | all len => materializeRange 0 len
  | range start len => materializeRange start len
  | explicit positions => .ok positions

/-- `contains`. -/
def contains : SparsePositionSet → UInt64 → Bool
  | empty, _ => false
  | all len, position => position < len
  | range start len, position => position ≥ start && position < saturatingAdd start len
  | explicit positions, position => (binarySearch positions position).isOk

/-- `slice::partition_point` of the positions below a bound. -/
def pointBelow (positions : List UInt64) (bound : UInt64) : Nat :=
  partitionPoint 0 positions.length fun i => positions[i]?.any (· < bound)

def validateDomain (set : SparsePositionSet) (domainLen : UInt64) (label : String) : Except String Unit :=
  match set with
  | empty => .ok ()
  | all len =>
    if len != domainLen then
      .error ("Sparse structural " ++ label ++ " all set length " ++ toString len ++ " does not match domain " ++
        toString domainLen)
    else .ok ()
  | range start len =>
    match checkedAdd start len with
    | none => .error ("Sparse structural " ++ label ++ " range overflows")
    | some stop =>
      if stop > domainLen then
        .error ("Sparse structural " ++ label ++ " range " ++ toString start ++ ".." ++ toString stop ++
          " is outside domain " ++ toString domainLen)
      else .ok ()
  | explicit positions =>
    if !increasingWindows positions then
      .error ("Sparse structural " ++ label ++ " positions must be strictly increasing")
    else match positions.getLast? with
      | some position =>
        if position ≥ domainLen then
          .error ("Sparse structural " ++ label ++ " position " ++ toString position ++ " is outside layer with " ++
            toString domainLen ++ " slots")
        else .ok ()
      | none => .ok ()

def isSubsetOf (self other : SparsePositionSet) (domainLen : UInt64) : Except String Bool := do
  self.validateDomain domainLen "subset"
  other.validateDomain domainLen "superset"
  match self with
  | empty => pure true
  | all _ => pure (other.len == domainLen)
  | range start len =>
    let stop ← match checkedAdd start len with
      | none => throw "Sparse structural subset range overflows"
      | some stop => pure stop
    match other with
    | all _ => pure true
    | range otherStart otherLen => pure (start ≥ otherStart && stop ≤ saturatingAdd otherStart otherLen)
    -- `u64::try_from(last.saturating_sub(first)).ok() == Some(len)`
    | explicit positions => pure (pointBelow positions stop - pointBelow positions start == len.toNat)
    | empty => pure false
  | explicit positions => pure (positions.all fun position => other.contains position)

/-- The `match smaller` of `is_disjoint`, on the set with fewer positions. -/
def disjointBySmaller (smaller larger : SparsePositionSet) : Bool :=
  match smaller with
  | empty => true
  | all _ => larger.isEmpty
  | range start len =>
    let stop := saturatingAdd start len
    match larger with
    | empty => true
    | all _ => false
    | range otherStart otherLen => stop ≤ otherStart || saturatingAdd otherStart otherLen ≤ start
    | explicit positions => positions[pointBelow positions start]?.all (· ≥ stop)
  | explicit positions => positions.all fun position => !larger.contains position

def isDisjoint (self other : SparsePositionSet) (domainLen : UInt64) : Except String Bool := do
  self.validateDomain domainLen "first disjoint set"
  other.validateDomain domainLen "second disjoint set"
  let (smaller, larger) := if self.len ≤ other.len then (self, other) else (other, self)
  pure (disjointBySmaller smaller larger)

/-- The loop of `decode_explicit_positions` after the first delta: each delta
moves the position on, by at least one and without overflow, to a slot of the
layer. -/
def explicitPositionsFrom (numSlots : UInt64) (label : String) (current : UInt64) :
    List UInt64 → Except String (List UInt64)
  | [] => .ok []
  | delta :: rest =>
    if delta == 0 then .error ("Sparse structural " ++ label ++ " positions must be strictly increasing")
    else match checkedAdd current delta with
      | none => .error ("Sparse structural " ++ label ++ " position overflow")
      | some next =>
        if next ≥ numSlots then
          .error ("Sparse structural " ++ label ++ " position " ++ toString next ++ " is outside layer with " ++
            toString numSlots ++ " slots")
        else (explicitPositionsFrom numSlots label next rest).map (next :: ·)

/-- The positions the loop of `decode_explicit_positions` builds from the
deltas: the first delta is the first position. -/
def explicitPositions (numSlots : UInt64) (label : String) : List UInt64 → Except String (List UInt64)
  | [] => .ok []
  | first :: rest =>
    if first ≥ numSlots then
      .error ("Sparse structural " ++ label ++ " position " ++ toString first ++ " is outside layer with " ++
        toString numSlots ++ " slots")
    else (first :: ·) <$> explicitPositionsFrom numSlots label first rest

/-- `decode_explicit_positions`, given what `decode_u64_values` made of the
position buffer: the deltas, or its error. -/
def decodeExplicitPositions (deltas : Except String (List UInt64)) (numSlots : UInt64) (label : String) :
    Except String SparsePositionSet := do
  let positions ← explicitPositions numSlots label (← deltas)
  fromPositions positions numSlots label

end SparsePositionSet

/-- `SparsePositionSetDecoder`: an explicit set keeps its count and domain,
and its deltas come from the next structural buffer. -/
inductive SparsePositionSetDecoder where
  | empty
  | all (len : UInt64)
  | range (start len : UInt64)
  | explicit (count domainLen : UInt64)
  deriving DecidableEq, Repr

/-- `decode_position_set`, with `decodeValues count` standing for the block
decompressor's `decode_u64_values` of `count` values from the next buffer. -/
def SparsePositionSetDecoder.decodePositionSet (decoder : SparsePositionSetDecoder)
    (decodeValues : UInt64 → Except String (List UInt64)) (label : String) : Except String SparsePositionSet :=
  match decoder with
  | empty => .ok .empty
  | all len => .ok (SparsePositionSet.ofAll len)
  | range start len => .ok (SparsePositionSet.ofRange start len)
  | explicit count domainLen => SparsePositionSet.decodeExplicitPositions (decodeValues count) domainLen label

/-- `SparseValidityMeaning`: whether a validity set lists the null positions
or the valid ones. -/
inductive SparseValidityMeaning where
  | nullPositions
  | validPositions
  deriving DecidableEq, Repr

structure SparseValiditySet where
  meaning : SparseValidityMeaning
  positions : SparsePositionSet
  deriving DecidableEq, Repr

def SparseValiditySet.containsOnlyValidPositions (validity : SparseValiditySet) (positions : SparsePositionSet)
    (numSlots : UInt64) : Except String Bool :=
  match validity.meaning with
  | .nullPositions => positions.isDisjoint validity.positions numSlots
  | .validPositions => positions.isSubsetOf validity.positions numSlots

end Lance.Encoding
