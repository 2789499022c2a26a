import Lance.Encoding.RepDef.Builder

/-! Serializing the recorded layers into repetition and definition levels
(`SerializerContext`, `repdef.rs`). The layers are walked from the outside in.
The context holds one level per slot of the current layer, and in between,
the levels of the empty and null lists of the layers above, marked as special
by a definition level above `SPECIAL_THRESHOLD`. A list layer replaces each
slot by one level per value of the list, or by one special level where the
list is empty, null or under a null struct; a validity layer writes its null
level into the slots that are still valid. Specials are copied as they are.

The buffers are allocated up front, all of the final length, and each pass
writes into the spare buffer and swaps it in. The model keeps the buffers
whole: a pass overwrites a prefix of the spare buffer and leaves the rest, as
the write iterator does. -/

namespace Lance.Encoding.RepDef

/-- `SPECIAL_THRESHOLD`, `u16::MAX / 2`. -/
def specialThreshold : Nat := 32767

/-- `SerializedRepDefs`: the levels, one per value or special, and the
meaning of each definition level from the innermost layer out. -/
structure SerializedRepDefs where
  repetitionLevels : Option (List Nat)
  definitionLevels : Option (List Nat)
  defMeaning : List DefinitionInterpretation
  maxVisibleLevel : Option Nat
  hasFsl : Bool
  deriving DecidableEq, Repr

/-- `SerializedRepDefs::max_visible_level`: the definition levels below the
innermost list. -/
def SerializedRepDefs.maxVisibleLevelOf (defMeaning : List DefinitionInterpretation) : Option Nat :=
  (defMeaning.findIdx? DefinitionInterpretation.isList).map fun firstList =>
    ((defMeaning.map DefinitionInterpretation.numDefLevels).take firstList).sum

/-- `SerializedRepDefs::new_with_fixed_size_list_levels`. -/
def SerializedRepDefs.newWithFixedSizeListLevels (repetitionLevels definitionLevels : Option (List Nat))
    (defMeaning : List DefinitionInterpretation) (hasFsl : Bool) : SerializedRepDefs :=
  ⟨repetitionLevels, definitionLevels, defMeaning, maxVisibleLevelOf defMeaning, hasFsl⟩

/-! ### Reading and writing level buffers -/

/-- Writing `written` through `spare.iter_mut()`: the prefix is overwritten,
the rest of the buffer stays; a write past its end panics. -/
def overwrite (written spare : List Nat) : Option (List Nat) :=
  if written.length ≤ spare.length then some (written ++ spare.drop written.length) else none

/-- `while def > SPECIAL_THRESHOLD`, where only def levels are read: the
specials before the next slot, then that slot's def level. -/
def passSpecialDefs : List Nat → Option (List Nat × Nat × List Nat)
  | [] => none
  | level :: defs =>
    if level > specialThreshold then
      (passSpecialDefs defs).map fun (copied, next, defs) => (level :: copied, next, defs)
    else some ([], level, defs)

/-- `while def > SPECIAL_THRESHOLD`, where each def level is followed by its
rep level: the specials before the next slot as `(rep, def)`, then that
slot's def level; its rep level is not read yet. -/
def passSpecials : List Nat → List Nat → Option (List (Nat × Nat) × Nat × List Nat × List Nat)
  | [], _ => none
  | level :: defs, reps =>
    if level > specialThreshold then
      match reps with
      | [] => none
      | rep :: reps => (passSpecials defs reps).map fun (copied, next, defs, reps) => ((rep, level) :: copied, next, defs, reps)
    else some ([], level, defs, reps)

/-- The trailing specials, `count` levels read as they are. -/
def copyLevels (count : Nat) (defs reps : List Nat) : Option (List (Nat × Nat)) :=
  if count ≤ defs.length ∧ count ≤ reps.length then some ((reps.take count).zip (defs.take count)) else none

def copyDefs (count : Nat) (defs : List Nat) : Option (List Nat) :=
  if count ≤ defs.length then some (defs.take count) else none

/-! ### The passes -/

/-- The loop of `record_offsets` where there are no def levels: every list is
valid and not empty, and writes one rep level per value. -/
def repOnlyListLevels (repLevel : Nat) : List Nat → List Nat → Option (List Nat)
  | [], _ => some []
  | len :: lengths, reps =>
    if len = 0 then none
    else
      match reps with
      | [] => none
      | rep :: reps => do
        -- the first value of a list starting no outer list gets this layer's rep level
        let listLevel := if rep = 0 then repLevel else rep
        let rest ← repOnlyListLevels repLevel lengths reps
        pure (listLevel :: List.replicate (len - 1) 0 ++ rest)

/-- The levels `record_offsets` writes for one list whose slot has def level
`level`: one per value of a valid list, else one special. -/
def listLevels (listLevel emptyListLevel level len : Nat) : List (Nat × Nat) :=
  if level = 0 ∧ 0 < len then (listLevel, 0) :: List.replicate (len - 1) (0, 0)
  else if level = 0 then [(listLevel, emptyListLevel + specialThreshold)]
  -- the list is null, or a struct above it is
  else [(listLevel, level + specialThreshold)]

/-- The loop of `record_offsets` where there are def levels. Returns the
levels written as `(rep, def)`, the specials passed, and the levels not read. -/
def recordListLevels (repLevel emptyListLevel : Nat) :
    List Nat → List Nat → List Nat → Option (List (Nat × Nat) × Nat × List Nat × List Nat)
  | [], defs, reps => some ([], 0, defs, reps)
  | len :: lengths, defs, reps => do
    let (copied, level, defs, reps) ← passSpecials defs reps
    match reps with
    | [] => none
    | rep :: reps => do
      let listLevel := if rep = 0 then repLevel else rep
      let (written, passed, defs, reps) ← recordListLevels repLevel emptyListLevel lengths defs reps
      pure (copied ++ listLevels listLevel emptyListLevel level len ++ written, copied.length + passed, defs, reps)

/-- The loop of `do_record_validity`: a valid slot of a null item gets the
null level. Returns the def levels written, the specials passed and the
levels not read. -/
def recordValidityLevels (nullLevel : Nat) : List Bool → List Nat → Option (List Nat × Nat × List Nat)
  | [], defs => some ([], 0, defs)
  | valid :: validity, defs => do
    let (copied, level, defs) ← passSpecialDefs defs
    let level := if level = 0 ∧ valid = false then nullLevel else level
    let (written, passed, defs) ← recordValidityLevels nullLevel validity defs
    pure (copied ++ level :: written, copied.length + passed, defs)

/-- The def-only loop of `multiply_levels`: each slot repeated, specials copied. -/
def multiplyDefs (multiplier : Nat) : Nat → List Nat → Option (List Nat)
  | 0, _ => some []
  | count + 1, defs => do
    let (copied, level, defs) ← passSpecialDefs defs
    let rest ← multiplyDefs multiplier count defs
    pure (copied ++ List.replicate multiplier level ++ rest)

/-- The rep-only loop of `multiply_levels`. -/
def multiplyReps (multiplier : Nat) : Nat → List Nat → Option (List Nat)
  | 0, _ => some []
  | count + 1, reps =>
    match reps with
    | [] => none
    | rep :: reps => do
      let rest ← multiplyReps multiplier count reps
      pure (List.replicate multiplier rep ++ rest)

/-- The loop of `multiply_levels` over both levels. -/
def multiplyBoth (multiplier : Nat) : Nat → List Nat → List Nat → Option (List (Nat × Nat))
  | 0, _, _ => some []
  | count + 1, defs, reps => do
    let (copied, level, defs, reps) ← passSpecials defs reps
    match reps with
    | [] => none
    | rep :: reps => do
      let rest ← multiplyBoth multiplier count defs reps
      pure (copied ++ List.replicate multiplier (rep, level) ++ rest)

/-- `SerializerContext`: the level buffers and their spares, the next rep and
def levels to hand out, and the meaning of the levels handed out so far,
outermost first. -/
structure SerializerContext where
  defMeaning : List DefinitionInterpretation
  repLevels : List Nat
  spareRep : List Nat
  defLevels : List Nat
  spareDef : List Nat
  currentRep : Nat
  currentDef : Nat
  currentLen : Nat
  currentNumSpecials : Nat
  hasFsl : Bool
  deriving DecidableEq, Repr

namespace SerializerContext

/-- `SerializerContext::new`: a buffer only where there are such levels. -/
def new (len maxRep maxDef : Nat) : SerializerContext :=
  let reps := if 0 < maxRep then List.replicate len 0 else []
  let defs := if 0 < maxDef then List.replicate len 0 else []
  ⟨[], reps, reps, defs, defs, maxRep, maxDef, 0, 0, false⟩

variable (ctx : SerializerContext)

/-- `checkout_def`: hands out the next def levels, from the top down. -/
def checkoutDef (meaning : DefinitionInterpretation) : SerializerContext × Nat :=
  ({ ctx with currentDef := ctx.currentDef - meaning.numDefLevels, defMeaning := ctx.defMeaning ++ [meaning] },
    ctx.currentDef)

def doRecordValidity (validity : List Bool) (nullLevel : Nat) : Option SerializerContext := do
  if ctx.defLevels.length < validity.length + ctx.currentNumSpecials then none
  let (written, passed, defs) ← recordValidityLevels nullLevel validity ctx.defLevels
  let trailing ← copyDefs (ctx.currentNumSpecials - passed) defs
  let spare ← overwrite (written ++ trailing) ctx.spareDef
  pure { ctx with currentLen := validity.length, defLevels := spare, spareDef := ctx.defLevels }

def listDefLevels (desc : OffsetDesc) : SerializerContext × Nat × Nat :=
  match desc.validity.isSome, desc.hasEmptyLists with
  | true, true =>
    let (ctx, level) := ctx.checkoutDef .nullableAndEmptyableList
    (ctx, level - 1, level)
  | true, false =>
    let (ctx, level) := ctx.checkoutDef .nullableList
    (ctx, level, 0)
  | false, true =>
    let (ctx, level) := ctx.checkoutDef .emptyableList
    (ctx, 0, level)
  | false, false => ((ctx.checkoutDef .allValidList).1, 0, 0)

def recordOffsets (desc : OffsetDesc) : Option SerializerContext := do
  let repLevel := ctx.currentRep
  let (ctx, nullListLevel, emptyListLevel) := ctx.listDefLevels desc
  let ctx := { ctx with currentRep := ctx.currentRep - 1 }
  let ctx ← match desc.validity with
    | some validity => ctx.doRecordValidity validity nullListLevel
    | none => pure ctx
  let expectedLen := desc.numValues + ctx.currentNumSpecials
  -- offsets `[0]`: no list, so no levels
  if expectedLen = 0 then pure { ctx with currentLen := 0 }
  else do
    if ctx.repLevels.length < expectedLen - 1 then none
    let lengths := windowLengths desc.offsets
    if ctx.defLevels.isEmpty then do
      let written ← repOnlyListLevels repLevel lengths ctx.repLevels
      let spareRep ← overwrite written ctx.spareRep
      pure { ctx with
        repLevels := spareRep, spareRep := ctx.repLevels, currentLen := written.length,
        currentNumSpecials := ctx.currentNumSpecials + desc.numSpecials }
    else do
      if ctx.defLevels.length < expectedLen - 1 then none
      let (written, passed, defs, reps) ← recordListLevels repLevel emptyListLevel lengths ctx.defLevels ctx.repLevels
      let trailing ← copyLevels (ctx.currentNumSpecials - passed) defs reps
      let written := written ++ trailing
      let spareDef ← overwrite (written.map Prod.snd) ctx.spareDef
      let spareRep ← overwrite (written.map Prod.fst) ctx.spareRep
      pure { ctx with
        defLevels := spareDef, spareDef := ctx.defLevels, repLevels := spareRep, spareRep := ctx.repLevels,
        currentLen := written.length, currentNumSpecials := ctx.currentNumSpecials + desc.numSpecials }

/-- `multiply_levels`: every slot repeated `multiplier` times, specials kept. -/
def multiplyLevels (multiplier : Nat) : Option SerializerContext := do
  let oldLen := ctx.currentLen
  let ctx := { ctx with currentLen := (ctx.currentLen - ctx.currentNumSpecials) * multiplier + ctx.currentNumSpecials }
  if ctx.repLevels.isEmpty ∧ ctx.defLevels.isEmpty then pure ctx
  else do
    let (defs, reps) ←
      if ctx.repLevels.isEmpty then do
        if ctx.defLevels.length < ctx.currentLen then none
        let written ← multiplyDefs multiplier oldLen ctx.defLevels
        pure (← overwrite written ctx.spareDef, ctx.spareRep)
      else if ctx.defLevels.isEmpty then do
        if ctx.repLevels.length < ctx.currentLen then none
        let written ← multiplyReps multiplier oldLen ctx.repLevels
        pure (ctx.spareDef, ← overwrite written ctx.spareRep)
      else do
        if ctx.repLevels.length < ctx.currentLen ∨ ctx.defLevels.length < ctx.currentLen then none
        let written ← multiplyBoth multiplier oldLen ctx.defLevels ctx.repLevels
        pure (← overwrite (written.map Prod.snd) ctx.spareDef, ← overwrite (written.map Prod.fst) ctx.spareRep)
    pure { ctx with defLevels := defs, spareDef := ctx.defLevels, repLevels := reps, spareRep := ctx.repLevels }

def recordValidityBuf (validity : Option (List Bool)) : Option SerializerContext :=
  match validity with
  | some validity =>
    let (ctx, defLevel) := ctx.checkoutDef .nullableItem
    ctx.doRecordValidity validity defLevel
  | none => some (ctx.checkoutDef .allValidItem).1

def recordValidity (desc : ValidityDesc) : Option SerializerContext :=
  ctx.recordValidityBuf desc.validity

def recordFsl (desc : FslDesc) : Option SerializerContext := do
  let ctx ← { ctx with hasFsl := true }.recordValidityBuf desc.validity
  ctx.multiplyLevels desc.dimension

/-- `normalize_specials`: specials get back their true def level. -/
def normalizeSpecials : SerializerContext :=
  { ctx with defLevels := ctx.defLevels.map fun level => if level > specialThreshold then level - specialThreshold else level }

/-- `build`: the levels, and the meaning of the def levels from the inside out. -/
def build : SerializedRepDefs :=
  if ctx.currentLen = 0 then
    .newWithFixedSizeListLevels none none ctx.defMeaning ctx.hasFsl
  else
    let ctx := ctx.normalizeSpecials
    .newWithFixedSizeListLevels (if ctx.repLevels.isEmpty then none else some ctx.repLevels)
      (if ctx.defLevels.isEmpty then none else some ctx.defLevels) ctx.defMeaning.reverse ctx.hasFsl

def recordLayer : RawRepDef → Option SerializerContext
  | .validity desc => ctx.recordValidity desc
  | .offsets desc => ctx.recordOffsets desc
  | .fsl desc => ctx.recordFsl desc

end SerializerContext

namespace NormalizedStructuralPlan

variable (plan : NormalizedStructuralPlan)

def totalLen : Nat :=
  (plan.layers.getLast?.map RawRepDef.numValues).getD 0 + (plan.layers.map RawRepDef.numSpecials).sum

/-- `to_serializer`, without the bit widths only the mini-block budget reads. -/
def toSerializer : Option SerializerContext :=
  if plan.denseAllValid then
    some ⟨plan.layers.map fun _ => .allValidItem, [], [], [], [], 0, 0, 0, 0, false⟩
  else
    plan.layers.foldlM SerializerContext.recordLayer
      (.new plan.totalLen (plan.layers.map RawRepDef.maxRep).sum (plan.layers.map RawRepDef.maxDef).sum)

/-- `NormalizedStructuralPlan::serialize`. -/
def serialize : Option SerializedRepDefs := plan.toSerializer.map SerializerContext.build

end NormalizedStructuralPlan

/-- `RepDefBuilder::serialize`. -/
def RepDefBuilder.serialize (builders : List RepDefBuilder) : Option SerializedRepDefs := do
  let plan ← RepDefBuilder.normalize builders
  plan.serialize

end Lance.Encoding.RepDef
