import Lance.Encoding.RepDef.Serializer

/-! Reading the levels back into validity bitmaps and offsets
(`RepDefUnraveler`, `CompositeRepDefUnraveler`, `repdef.rs`). The layers are
unravelled from the inside out, the reverse of serialization. A validity
layer reads one bit from each level visible at the current depth. A list
layer turns the levels that start a list into offsets, and compacts the
buffers to those levels, one rep level lower, so that the next layer out sees
one level per list of this one.

The dense unraveler is modelled; the sparse one (`new_sparse`) and the sibling
compatibility checks of the composite unraveler are not. Offsets are `Nat`;
`offsetLimit` is the largest value of the offset type, past which `to_offset`
fails. -/

namespace Lance.Encoding.RepDef

/-- `RepDefUnraveler`, dense. -/
structure RepDefUnraveler where
  repLevels : Option (List Nat)
  defLevels : Option (List Nat)
  levelsToRep : List Nat
  defMeaning : List DefinitionInterpretation
  currentDefCmp : Nat
  currentRepCmp : Nat
  currentLayer : Nat
  numItems : Nat
  deriving DecidableEq, Repr

/-- One layer of `levels_to_rep`: each def level of a layer maps to the
number of list layers up to and including it. -/
def levelsToRepStep (acc : List Nat × Nat) : DefinitionInterpretation → List Nat × Nat
  | .allValidItem | .allValidList => acc
  | .nullableItem => (acc.1 ++ [acc.2], acc.2)
  | .nullableList | .emptyableList => (acc.1 ++ [acc.2 + 1], acc.2 + 1)
  | .nullableAndEmptyableList => (acc.1 ++ [acc.2 + 1, acc.2 + 1], acc.2 + 1)

/-- The error of `to_offset`. -/
def offsetOverflowError : String :=
  "A single batch had more than i32::MAX values and so a large container type is required"

/-- `to_offset`: a value past the offset type's range is an error. -/
def toOffset (offsetLimit value : Nat) : Except String Nat :=
  if value ≤ offsetLimit then .ok value else .error offsetOverflowError

/-- The null structs right above a list layer, up to the next list: their
def levels mask the list. -/
def structNullLevels : List DefinitionInterpretation → Nat
  | .nullableItem :: rest => structNullLevels rest + 1
  | .allValidItem :: rest => structNullLevels rest
  | _ => 0

/-- The def levels of a list layer whose valid level is `validLevel`: the
next comparison level, the null level and the empty level (0 where the layer
has none); `none` where the layer is no list (`unreachable!`). -/
def listLevelsOf (validLevel : Nat) : DefinitionInterpretation → Option (Nat × Nat × Nat)
  | .nullableList => some (validLevel + 1, validLevel + 1, 0)
  | .emptyableList => some (validLevel + 1, 0, validLevel + 1)
  | .nullableAndEmptyableList => some (validLevel + 2, validLevel + 1, validLevel + 2)
  | .allValidList => some (validLevel, 0, 0)
  | _ => none

/-- What `unravel_offsets` makes of a level that starts a list here or
further out: `none` where it belongs to a layer further out, else the
validity of the list and whether its first value is there. -/
def listStart (maxLevel nullLevel upperNull emptyLevel level : Nat) : Option (Bool × Bool) :=
  if level = 0 then some (true, true)
  else if level > maxLevel then none
  -- a null list, or a list under a null struct
  else if level = nullLevel ∨ level > upperNull then some (false, false)
  else if level = emptyLevel then some (true, false)
  -- a valid list whose first value is null
  else some (true, true)

/-- The loop of `unravel_offsets` over `(rep, def)` levels: a level of rep 0
is one more value of the current list; any other starts a list here or
further out and is kept, one rep level lower. Returns the levels kept, the
offsets and validity pushed, and the final length. The in-place compaction
of the source writes at an index never past the one it reads, so it keeps
exactly these levels in order. -/
def unravelListLevels (offsetLimit maxLevel nullLevel upperNull emptyLevel : Nat) :
    List (Nat × Nat) → Nat → Except String (List (Nat × Nat) × List Nat × List Bool × Nat)
  | [], curlen => .ok ([], [], [], curlen)
  | (rep, level) :: rest, curlen =>
    if rep = 0 then unravelListLevels offsetLimit maxLevel nullLevel upperNull emptyLevel rest (curlen + 1)
    else
      match listStart maxLevel nullLevel upperNull emptyLevel level with
      | none => do
        let (kept, offsets, validity, curlen) ←
          unravelListLevels offsetLimit maxLevel nullLevel upperNull emptyLevel rest curlen
        pure ((rep - 1, level) :: kept, offsets, validity, curlen)
      | some (valid, hasValue) => do
        let offset ← toOffset offsetLimit curlen
        let (kept, offsets, validity, curlen) ← unravelListLevels offsetLimit maxLevel nullLevel upperNull
          emptyLevel rest (if hasValue then curlen + 1 else curlen)
        pure ((rep - 1, level) :: kept, offset :: offsets, valid :: validity, curlen)

/-- The loop of `unravel_offsets` where there are no def levels. -/
def unravelRepOnly (offsetLimit : Nat) : List Nat → Nat → Except String (List Nat × List Nat × Nat)
  | [], curlen => .ok ([], [], curlen)
  | rep :: rest, curlen =>
    if rep = 0 then unravelRepOnly offsetLimit rest (curlen + 1)
    else do
      let offset ← toOffset offsetLimit curlen
      let (kept, offsets, curlen) ← unravelRepOnly offsetLimit rest (curlen + 1)
      pure ((rep - 1) :: kept, offset :: offsets, curlen)

def everyNth (dimension : Nat) : List Nat → List Nat
  | [] => []
  | level :: rest => level :: everyNth dimension (rest.drop (dimension - 1))
termination_by levels => levels.length
decreasing_by simp only [List.length_drop, List.length_cons]; omega

namespace RepDefUnraveler

/-- `RepDefUnraveler::new`. -/
def new (repLevels defLevels : Option (List Nat)) (defMeaning : List DefinitionInterpretation)
    (numItems : Nat) : RepDefUnraveler :=
  ⟨repLevels, defLevels, (defMeaning.foldl levelsToRepStep ([0], 0)).1, defMeaning, 0, 0, 0, numItems⟩

variable (unraveler : RepDefUnraveler)

/-- `is_all_valid`; `none` where the layer index is out of range. -/
def isAllValid : Option Bool :=
  if unraveler.defLevels.isNone then some true
  else (unraveler.defMeaning[unraveler.currentLayer]?).map DefinitionInterpretation.isAllValid

def maxLists : Nat := (unraveler.repLevels.map List.length).getD 0

/-- `unravel_offsets`: appends this unraveler's lists to `offsets`, whose
last value is the running length, and their validity to `validity` where a
bitmap is built. The outer `Option` is a panic, the `Except` an error. -/
def unravelOffsets (offsetLimit : Nat) (offsets : List Nat) (validity : Option (List Bool)) :
    Option (Except String (RepDefUnraveler × List Nat × Option (List Bool))) := do
  let repLevels ← unraveler.repLevels
  let meaning ← unraveler.defMeaning[unraveler.currentLayer]?
  let validLevel := unraveler.currentDefCmp
  let (currentDefCmp, nullLevel, emptyLevel) ← listLevelsOf validLevel meaning
  let currentLayer := unraveler.currentLayer + 1
  let upperNull := max (max nullLevel emptyLevel) validLevel
  let maxLevel := upperNull + structNullLevels (unraveler.defMeaning.drop currentLayer)
  let curlen := offsets.getLast?.getD 0
  -- the running length is pushed again at the end
  let offsets := offsets.dropLast
  let next := { unraveler with currentDefCmp, currentLayer, currentRepCmp := unraveler.currentRepCmp + 1 }
  match unraveler.defLevels with
  | some defLevels =>
    if repLevels.length ≠ defLevels.length then none
    else pure do
      let (kept, pushed, valid, curlen) ←
        unravelListLevels offsetLimit maxLevel nullLevel upperNull emptyLevel (repLevels.zip defLevels) curlen
      let last ← toOffset offsetLimit curlen
      pure ({ next with repLevels := some (kept.map Prod.fst), defLevels := some (kept.map Prod.snd) },
        offsets ++ pushed ++ [last], validity.map (· ++ valid))
  | none => pure do
    let (kept, pushed, curlen) ← unravelRepOnly offsetLimit repLevels curlen
    let last ← toOffset offsetLimit curlen
    pure ({ next with repLevels := some kept }, offsets ++ pushed ++ [last],
      validity.map (· ++ List.replicate pushed.length true))

def skipValidity : RepDefUnraveler := { unraveler with currentLayer := unraveler.currentLayer + 1 }

/-- The bit `unravel_validity` reads from one def level: `none` where the
level belongs to a layer beyond a list further out. The outer `Option` is the
indexing of `levels_to_rep`. -/
def visibleValidity (level : Nat) : Option (Option Bool) :=
  (unraveler.levelsToRep[level]?).map fun rep =>
    if rep ≤ unraveler.currentRepCmp then some (level ≤ unraveler.currentDefCmp) else none

/-- `unravel_validity`: appends the layer's bits to `validity`. -/
def unravelValidity (validity : List Bool) : Option (RepDefUnraveler × List Bool) := do
  let meaning ← unraveler.defMeaning[unraveler.currentLayer]?
  match meaning == .allValidItem, unraveler.defLevels with
  | false, some defLevels => do
    let bits ← defLevels.mapM unraveler.visibleValidity
    pure ({ unraveler with currentLayer := unraveler.currentLayer + 1, currentDefCmp := unraveler.currentDefCmp + 1 },
      validity ++ bits.filterMap id)
  | _, _ =>
    pure ({ unraveler with currentLayer := unraveler.currentLayer + 1 },
      validity ++ List.replicate unraveler.numItems true)

/-- `decimate`: one def level of each fixed-size list; `FSL<…List<…>>` is
not supported (`todo!`), and a dimension of 0 never ends. -/
def decimate (dimension : Nat) : Option RepDefUnraveler :=
  if unraveler.repLevels.isSome ∨ dimension = 0 then none
  else some { unraveler with defLevels := unraveler.defLevels.map (everyNth dimension) }

end RepDefUnraveler

/-- `CompositeRepDefUnraveler`: the unravelers of consecutive pages. -/
structure CompositeRepDefUnraveler where
  unravelers : List RepDefUnraveler
  deriving DecidableEq, Repr

namespace CompositeRepDefUnraveler

variable (composite : CompositeRepDefUnraveler)

/-- `unravelers.iter().all(is_all_valid)`, which stops at the first page
that is not all valid. -/
def allValid : List RepDefUnraveler → Option Bool
  | [] => some true
  | unraveler :: rest => do
    if ← unraveler.isAllValid then allValid rest else pure false

/-- One unraveler of `unravel_validity`, appending to the bitmap. -/
def unravelValidityStep (acc : List RepDefUnraveler × List Bool) (unraveler : RepDefUnraveler) :
    Option (List RepDefUnraveler × List Bool) :=
  (unraveler.unravelValidity acc.2).map fun (next, validity) => (acc.1 ++ [next], validity)

/-- `unravel_validity`: `none` inside where every page is all valid. -/
def unravelValidity : Option (CompositeRepDefUnraveler × Option (List Bool)) := do
  if ← allValid composite.unravelers then
    pure (⟨composite.unravelers.map RepDefUnraveler.skipValidity⟩, none)
  else do
    let (unravelers, validity) ← composite.unravelers.foldlM unravelValidityStep ([], [])
    pure (⟨unravelers⟩, some validity)

def unravelFslValidity (dimension : Nat) : Option (CompositeRepDefUnraveler × Option (List Bool)) := do
  let unravelers ← composite.unravelers.mapM (·.decimate dimension)
  CompositeRepDefUnraveler.unravelValidity ⟨unravelers⟩

/-- One unraveler of `unravel_offsets`. -/
def unravelOffsetsStep (offsetLimit : Nat) (acc : Except String (List RepDefUnraveler × List Nat × Option (List Bool)))
    (unraveler : RepDefUnraveler) : Option (Except String (List RepDefUnraveler × List Nat × Option (List Bool))) :=
  match acc with
  | .error failure => some (.error failure)
  | .ok (done, offsets, validity) =>
    (unraveler.unravelOffsets offsetLimit offsets validity).map fun result =>
      result.map fun (next, offsets, validity) => (done ++ [next], offsets, validity)

/-- `unravel_offsets`: the offsets and, unless every page is all valid, the
validity of one list layer. -/
def unravelOffsets (offsetLimit : Nat) :
    Option (Except String (CompositeRepDefUnraveler × List Nat × Option (List Bool))) := do
  -- `is_all_valid &= …` asks every page
  let allValid ← composite.unravelers.foldlM (fun all unraveler => unraveler.isAllValid.map (all && ·)) true
  let start := .ok ([], [], if allValid then none else some [])
  let result ← composite.unravelers.foldlM (unravelOffsetsStep offsetLimit) start
  pure (result.map fun (unravelers, offsets, validity) => (⟨unravelers⟩, offsets, validity))

end CompositeRepDefUnraveler

end Lance.Encoding.RepDef
