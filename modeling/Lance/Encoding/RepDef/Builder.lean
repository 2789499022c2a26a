import Mathlib

/-! The structural layers of a nested Arrow array, as the encoder records them
(`repdef.rs`). Walking a column from the outside in, each struct or item layer
adds its validity, each list layer its offsets and validity, and each
fixed-size-list layer its validity and dimension. Offsets are normalised as
they are added: a null or empty list takes no room, so its two offsets are
equal.

Levels and lengths are `Nat`. A panic of the source (a failed `assert!`, an
`unwrap` of `None`) is `none`. -/

namespace Lance.Encoding.RepDef

/-- `DefinitionInterpretation`: what the definition levels of one layer mean. -/
inductive DefinitionInterpretation where
  | allValidItem
  | allValidList
  | nullableItem
  | nullableList
  | emptyableList
  | nullableAndEmptyableList
  deriving DecidableEq, Repr

namespace DefinitionInterpretation

def numDefLevels : DefinitionInterpretation → Nat
  | allValidItem | allValidList => 0
  | nullableItem | nullableList | emptyableList => 1
  | nullableAndEmptyableList => 2

def isAllValid : DefinitionInterpretation → Bool
  | allValidItem | allValidList | emptyableList => true
  | _ => false

def isList : DefinitionInterpretation → Bool
  | allValidList | nullableList | emptyableList | nullableAndEmptyableList => true
  | _ => false

end DefinitionInterpretation

/-- Arrow's `OffsetBuffer`: offsets that are not empty and never decrease. -/
structure OffsetBuffer where
  offsets : List Nat
  nonempty : offsets ≠ []
  monotone : offsets.Pairwise (· ≤ ·)

def windowLengths (offsets : List Nat) : List Nat :=
  List.zipWith (fun first next => next - first) offsets offsets.tail

example : windowLengths [0, 2, 2, 5] = [2, 0, 3] := by decide

/-- `OffsetDesc`: a list layer, its offsets normalised. -/
structure OffsetDesc where
  offsets : List Nat
  validity : Option (List Bool)
  hasEmptyLists : Bool
  numValues : Nat
  numSpecials : Nat
  deriving DecidableEq, Repr

/-- `ValidityDesc`: a struct or item layer. -/
structure ValidityDesc where
  validity : Option (List Bool)
  numValues : Nat
  deriving DecidableEq, Repr

/-- `FslDesc`: a fixed-size-list layer. -/
structure FslDesc where
  validity : Option (List Bool)
  dimension : Nat
  numValues : Nat
  deriving DecidableEq, Repr

/-- `RawRepDef`: one recorded layer. -/
inductive RawRepDef where
  | offsets (desc : OffsetDesc)
  | validity (desc : ValidityDesc)
  | fsl (desc : FslDesc)
  deriving DecidableEq, Repr

namespace RawRepDef

def hasNulls : RawRepDef → Bool
  | offsets desc => desc.validity.isSome
  | validity desc => desc.validity.isSome
  | fsl desc => desc.validity.isSome

def numValues : RawRepDef → Nat
  | offsets desc => desc.numValues
  | validity desc => desc.numValues
  | fsl desc => desc.numValues

/-- `num_specials`: the empty and null lists of the layer. -/
def numSpecials : RawRepDef → Nat
  | offsets desc => desc.numSpecials
  | _ => 0

/-- `max_def`: the definition levels the layer needs. -/
def maxDef : RawRepDef → Nat
  | offsets desc => (if desc.hasEmptyLists then 1 else 0) + (if desc.validity.isSome then 1 else 0)
  | validity desc => if desc.validity.isSome then 1 else 0
  | fsl desc => if desc.validity.isSome then 1 else 0

def maxRep : RawRepDef → Nat
  | offsets _ => 1
  | _ => 0

end RawRepDef

/-- `RepDefBuilder`: the layers recorded so far, outermost first, and the
number of slots the next layer must have, unknown until the first layer. -/
structure RepDefBuilder where
  repdefs : List RawRepDef
  len : Option Nat
  deriving DecidableEq, Repr

namespace RepDefBuilder

/-- `RepDefBuilder::default`. -/
def default : RepDefBuilder := ⟨[], none⟩

variable (builder : RepDefBuilder)

def checkValidityLen (incomingLen : Nat) : Option RepDefBuilder :=
  match builder.len with
  | some len => if incomingLen = len then some builder else none
  | none => some { builder with len := some incomingLen }

def numLayers : Nat := builder.repdefs.length

/-- `is_empty`: no repetition and no nulls. -/
def isEmpty : Bool :=
  builder.repdefs.all fun
    | .validity ⟨none, _⟩ => true
    | _ => false

def addNoNull (len : Nat) : Option RepDefBuilder := do
  let builder ← builder.checkValidityLen len
  pure { builder with repdefs := builder.repdefs ++ [.validity ⟨none, len⟩] }

/-- `add_validity_bitmap`: a bitmap without nulls is recorded as no nulls. -/
def addValidityBitmap (validity : List Bool) : Option RepDefBuilder := do
  let builder ← builder.checkValidityLen validity.length
  if validity.count false = 0 then
    builder.addNoNull validity.length
  else
    pure { builder with repdefs := builder.repdefs ++ [.validity ⟨some validity, validity.length⟩] }

/-- `add_fsl`: the next layer has `dimension` slots for each of these. -/
def addFsl (validity : Option (List Bool)) (dimension numValues : Nat) : Option RepDefBuilder := do
  if let some len := builder.len then
    if numValues ≠ len then none
  pure ⟨builder.repdefs ++ [.fsl ⟨validity, dimension, numValues⟩], some (numValues * dimension)⟩

/-- `check_offset_len`: the next layer has as many slots as the last offset. -/
def checkOffsetLen (offsets : List Nat) : Option RepDefBuilder := do
  if let some len := builder.len then
    if offsets.length ≠ len + 1 then none
  let last ← offsets.getLast?
  pure { builder with len := some last }

/-- The scan of `do_add_offsets`: empty and null lists counted, null lists
normalised to no room. -/
structure OffsetScan where
  numSpecials : Nat
  hasEmptyLists : Bool
  hasGarbageValues : Bool
  lastOff : Nat
  normalizedOffsets : List Nat
  deriving DecidableEq, Repr

/-- One list of the scan with validity: a null list is special and takes no
room, whatever its length; an empty valid list is special. -/
def scanNullableList (scan : OffsetScan) (list : Nat × Bool) : OffsetScan :=
  let (len, isValid) := list
  let scan :=
    match isValid, len == 0 with
    | false, isEmpty =>
      { scan with numSpecials := scan.numSpecials + 1, hasGarbageValues := scan.hasGarbageValues || !isEmpty }
    | true, true => { scan with numSpecials := scan.numSpecials + 1, hasEmptyLists := true }
    | _, _ => { scan with lastOff := scan.lastOff + len }
  { scan with normalizedOffsets := scan.normalizedOffsets ++ [scan.lastOff] }

def scanList (scan : OffsetScan) (len : Nat) : OffsetScan :=
  let scan :=
    if len = 0 then { scan with numSpecials := scan.numSpecials + 1, hasEmptyLists := true } else scan
  let lastOff := scan.lastOff + len
  { scan with lastOff, normalizedOffsets := scan.normalizedOffsets ++ [lastOff] }

/-- The scan before the first list. -/
def OffsetScan.start : OffsetScan := ⟨0, false, false, 0, [0]⟩

/-- `do_add_offsets`: records a list layer with normalised offsets; returns
whether a null list had values (garbage the caller must filter). -/
def doAddOffsets (lengths : List Nat) (validity : Option (List Bool)) : Option (RepDefBuilder × Bool) := do
  let scan :=
    match validity with
    | some validity => (lengths.zip validity).foldl scanNullableList OffsetScan.start
    | none => lengths.foldl scanList OffsetScan.start
  let builder ← builder.checkOffsetLen scan.normalizedOffsets
  pure ({ builder with
      repdefs := builder.repdefs ++
        [.offsets ⟨scan.normalizedOffsets, validity, scan.hasEmptyLists, scan.normalizedOffsets.length - 1,
          scan.numSpecials⟩] },
    scan.hasGarbageValues)

def addOffsets (offsets : OffsetBuffer) (validity : Option (List Bool)) : Option (RepDefBuilder × Bool) :=
  builder.doAddOffsets (windowLengths offsets.offsets) validity

/-! ### Concatenating the builders of several batches -/

/-- The kind of the layers `concat_layers` joins; the last one seen wins. -/
inductive LayerKind where
  | validity
  | fsl
  | offsets
  deriving DecidableEq, Repr

/-- The first pass of `concat_layers`. -/
structure LayerSummary where
  hasNulls : Bool
  layerKind : LayerKind
  totalNumSpecials : Nat
  allDimension : Nat
  allHasEmptyLists : Bool
  allNumValues : Nat
  deriving DecidableEq, Repr

def summarizeLayer (summary : LayerSummary) (layer : RawRepDef) : LayerSummary :=
  let summary := { summary with hasNulls := summary.hasNulls || layer.hasNulls }
  let summary :=
    match layer with
    | .validity _ => { summary with layerKind := .validity }
    | .offsets desc =>
      { summary with
        allHasEmptyLists := summary.allHasEmptyLists || desc.hasEmptyLists
        layerKind := .offsets
        totalNumSpecials := summary.totalNumSpecials + desc.numSpecials }
    | .fsl desc => { summary with layerKind := .fsl, allDimension := desc.dimension }
  { summary with allNumValues := summary.allNumValues + layer.numValues }

/-- One layer of the second pass: its validity appended to the bitmap (all
valid where it has none and a bitmap is built) and its offsets, shifted by the
last offset so far, to the offsets. -/
def appendLayer (hasNulls : Bool) (joined : List Bool × List Nat × Bool) (layer : RawRepDef) :
    Option (List Bool × List Nat × Bool) :=
  let (validity, allOffsets, allHasEmptyLists) := joined
  match layer with
  | .validity ⟨some bits, _⟩ => some (validity ++ bits, allOffsets, allHasEmptyLists)
  | .validity ⟨none, numValues⟩ => some (validity ++ List.replicate numValues true, allOffsets, allHasEmptyLists)
  | .fsl ⟨some bits, _, _⟩ => some (validity ++ bits, allOffsets, allHasEmptyLists)
  | .fsl ⟨none, _, numValues⟩ => some (validity ++ List.replicate numValues true, allOffsets, allHasEmptyLists)
  | .offsets ⟨offsets, some bits, hasEmptyLists, _, _⟩ => do
    let last ← allOffsets.getLast?
    pure (validity ++ bits, allOffsets ++ offsets.tail.map (· + last), allHasEmptyLists || hasEmptyLists)
  | .offsets ⟨offsets, none, hasEmptyLists, numValues, _⟩ => do
    let last ← allOffsets.getLast?
    pure (if hasNulls then validity ++ List.replicate numValues true else validity,
      allOffsets ++ offsets.tail.map (· + last), allHasEmptyLists || hasEmptyLists)

/-- `concat_layers`: one layer of every batch joined into one. -/
def concatLayers (layers : List RawRepDef) : Option RawRepDef := do
  let summary := layers.foldl summarizeLayer ⟨false, .validity, 0, 0, false, 0⟩
  match summary.hasNulls, summary.layerKind with
  -- the shortcut when no batch has nulls
  | false, .validity => pure (.validity ⟨none, summary.allNumValues⟩)
  | false, .fsl => pure (.fsl ⟨none, summary.allDimension, summary.allNumValues⟩)
  | _, _ => do
    let start := ([], if summary.layerKind = .offsets then [0] else [], summary.allHasEmptyLists)
    let (bits, allOffsets, allHasEmptyLists) ← layers.foldlM (appendLayer summary.hasNulls) start
    let validity := if summary.hasNulls then some bits else none
    pure <| match summary.layerKind with
      | .fsl => .fsl ⟨validity, summary.allDimension, summary.allNumValues⟩
      | .validity => .validity ⟨validity, summary.allNumValues⟩
      | .offsets => .offsets ⟨allOffsets, validity, allHasEmptyLists, summary.allNumValues, summary.totalNumSpecials⟩

end RepDefBuilder

/-- `NormalizedStructuralPlan`: the layers of all batches, each concatenated
once, and whether no batch has repetition or nulls. -/
structure NormalizedStructuralPlan where
  layers : List RawRepDef
  denseAllValid : Bool
  deriving DecidableEq, Repr

/-- `RepDefBuilder::normalize`: the builders must have the same layers. -/
def RepDefBuilder.normalize (builders : List RepDefBuilder) : Option NormalizedStructuralPlan := do
  let first ← builders.head?
  let layers ← (List.range first.numLayers).mapM fun layerIndex => do
    let layer ← builders.mapM (·.repdefs[layerIndex]?)
    RepDefBuilder.concatLayers layer
  pure ⟨layers, builders.all RepDefBuilder.isEmpty⟩

end Lance.Encoding.RepDef
