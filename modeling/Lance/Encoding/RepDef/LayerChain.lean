import Lance.Encoding.RepDef.Serializer
import Lance.Library.OptionList

/-! How the recorded layers fit together. A layer has slots: its lists, its
items or its fixed-size lists. It hands the layer below children: the values
of its lists, its items, or `dimension` items per fixed-size list. As each
layer is added, the builder checks that it has as many slots as the layer above
has children (`check_validity_len`, `check_offset_len`, `add_fsl`). A list
layer's offsets start at zero and have one more entry than the layer has
lists. -/

namespace Lance.Encoding.RepDef

namespace RawRepDef

def slots : RawRepDef → Nat
  | offsets desc => desc.offsets.length - 1
  | validity desc => desc.numValues
  | fsl desc => desc.numValues

/-- The slots of the layer below: the values of the lists, the items, or
`dimension` items per fixed-size list. -/
def children : RawRepDef → Nat
  | offsets desc => desc.offsets.getLastD 0
  | validity desc => desc.numValues
  | fsl desc => desc.numValues * desc.dimension

/-- What a layer the builder records satisfies on its own: offsets from zero,
one per list and one more, at most one special per list, specials only where
an empty or a null list can be told apart, and a validity bit per slot of an
item layer. -/
def WellFormed : RawRepDef → Prop
  | offsets desc =>
    desc.offsets.head? = some 0 ∧ desc.numValues + 1 = desc.offsets.length ∧ desc.numSpecials ≤ desc.numValues ∧
      (desc.numSpecials = 0 ∨ desc.hasEmptyLists = true ∨ desc.validity.isSome = true)
  | validity desc => ∀ bits ∈ desc.validity, bits.length = desc.numValues
  | fsl desc => ∀ bits ∈ desc.validity, bits.length = desc.numValues

/-- The kind of a layer, as `concat_layers` tells them apart. -/
def kind : RawRepDef → RepDefBuilder.LayerKind
  | offsets _ => .offsets
  | validity _ => .validity
  | fsl _ => .fsl

theorem children_eq_zero {layer : RawRepDef} (formed : layer.WellFormed) (empty : layer.slots = 0) :
    layer.children = 0 := by
  cases layer with
  | offsets desc =>
    obtain ⟨start, count, -, -⟩ := formed
    -- offsets `[0]`: the last offset is the first
    have single : desc.offsets = [0] := by
      cases offsets : desc.offsets with
      | nil => simp [offsets] at start
      | cons first rest =>
        simp only [slots, offsets, List.length_cons, Nat.add_sub_cancel] at empty
        simp [offsets, List.length_eq_zero_iff.mp empty] at start ⊢
        exact start
    simp [children, single]
  | validity desc => exact empty
  | fsl desc => simp [children, show desc.numValues = 0 from empty]

theorem slots_offsets {desc : OffsetDesc} (formed : (offsets desc).WellFormed) :
    (offsets desc).slots = desc.numValues := by
  obtain ⟨-, count, -, -⟩ := formed
  simp only [slots]
  omega

end RawRepDef

/-- Layers, from the outside in, each with as many slots as the layer above
has children. -/
def Chained (layers : List RawRepDef) : Prop :=
  layers.IsChain fun above below => below.slots = above.children

theorem Chained.slots_eq_zero : ∀ {layer : RawRepDef} {rest : List RawRepDef}, Chained (layer :: rest) →
    (∀ below ∈ rest, below.WellFormed) → layer.children = 0 → ∀ below ∈ rest, below.slots = 0
  | _, [], _, _, _ => by simp
  | _, next :: rest, chained, formed, childless => by
    rw [Chained, List.isChain_cons_cons] at chained
    have nextEmpty : next.slots = 0 := chained.1.trans childless
    have nextNone : next.children = 0 := RawRepDef.children_eq_zero (formed next List.mem_cons_self) nextEmpty
    have restEmpty := Chained.slots_eq_zero chained.2
      (fun below mem => formed below (List.mem_cons_of_mem _ mem)) nextNone
    simpa [nextEmpty] using restEmpty

namespace RepDefBuilder

/-- The builder's invariant: its layers are each well formed and fit together,
and the slots it expects of the next layer are the children of its last one. -/
structure Fits (builder : RepDefBuilder) : Prop where
  wellFormed : ∀ layer ∈ builder.repdefs, layer.WellFormed
  chained : Chained builder.repdefs
  len : builder.len = builder.repdefs.getLast?.map RawRepDef.children

/-- One layer added that fits: well formed, with the slots the builder
expects; the next layer must then have its children as slots. -/
def Adds (builder next : RepDefBuilder) : Prop :=
  ∃ layer : RawRepDef, layer.WellFormed ∧ (∀ len ∈ builder.len, layer.slots = len) ∧
    next = ⟨builder.repdefs ++ [layer], some layer.children⟩

theorem fits_default : RepDefBuilder.default.Fits :=
  ⟨by simp [RepDefBuilder.default], List.isChain_nil, rfl⟩

theorem Fits.adds {builder next : RepDefBuilder} (fits : builder.Fits) (adds : Adds builder next) : next.Fits := by
  obtain ⟨layer, formed, slots, rfl⟩ := adds
  refine ⟨fun below mem => ?_, ?_, by simp⟩
  · rcases List.mem_append.mp mem with old | added
    · exact fits.wellFormed below old
    · rw [List.mem_singleton.mp added]
      exact formed
  · -- the new layer's slots are the children of the last one
    refine List.IsChain.append fits.chained (List.isChain_singleton layer) fun last lastMem first firstMem => ?_
    rw [List.head?_cons, Option.mem_some_iff] at firstMem
    subst firstMem
    exact slots _ (fits.len ▸ Option.mem_map_of_mem _ lastMem)

theorem Adds.of_checked {builder next : RepDefBuilder} {incomingLen : Nat}
    (adds : Adds { builder with len := some incomingLen } next) (same : ∀ len ∈ builder.len, incomingLen = len) :
    Adds builder next := by
  obtain ⟨layer, formed, slots, rfl⟩ := adds
  exact ⟨layer, formed, fun len mem => (slots incomingLen rfl).trans (same len mem), rfl⟩

theorem checkValidityLen_eq_some {builder checked : RepDefBuilder} {incomingLen : Nat}
    (ok : builder.checkValidityLen incomingLen = some checked) :
    checked = { builder with len := some incomingLen } ∧ ∀ len ∈ builder.len, incomingLen = len := by
  unfold checkValidityLen at ok
  cases known : builder.len with
  | none =>
    simp only [known, Option.some.injEq] at ok
    exact ⟨ok.symm, by simp⟩
  | some len =>
    simp only [known] at ok
    split_ifs at ok with same
    cases ok
    refine ⟨?_, by simp [same]⟩
    cases builder
    simp_all

theorem addNoNull_adds {builder next : RepDefBuilder} {len : Nat} (added : builder.addNoNull len = some next) :
    Adds builder next := by
  obtain ⟨checked, ok, recorded⟩ := Option.bind_eq_some_iff.mp added
  obtain ⟨rfl, same⟩ := checkValidityLen_eq_some ok
  cases recorded
  exact Adds.of_checked ⟨.validity ⟨none, len⟩, by simp [RawRepDef.WellFormed], fun _ mem => by
    simpa [RawRepDef.slots] using mem, rfl⟩ same

theorem addValidityBitmap_adds {builder next : RepDefBuilder} {validity : List Bool}
    (added : builder.addValidityBitmap validity = some next) : Adds builder next := by
  obtain ⟨checked, ok, recorded⟩ := Option.bind_eq_some_iff.mp added
  obtain ⟨rfl, same⟩ := checkValidityLen_eq_some ok
  refine Adds.of_checked ?_ same
  split_ifs at recorded
  · -- a bitmap without nulls is recorded as no nulls
    exact addNoNull_adds recorded
  · cases recorded
    exact ⟨.validity ⟨some validity, validity.length⟩, by simp [RawRepDef.WellFormed], fun _ mem => by
      simpa [RawRepDef.slots] using mem, rfl⟩

/-- A fixed-size-list layer fits where its bitmap has a bit per fixed-size list,
as Arrow's null buffers do (the source only `debug_assert!`s it). -/
theorem addFsl_adds {builder next : RepDefBuilder} {validity : Option (List Bool)} {dimension numValues : Nat}
    (bits : ∀ bits ∈ validity, bits.length = numValues) (added : builder.addFsl validity dimension numValues = some next) :
    Adds builder next := by
  refine ⟨.fsl ⟨validity, dimension, numValues⟩, bits, fun len mem => ?_, ?_⟩
  · simp only [addFsl, Option.mem_def.mp mem] at added
    split_ifs at added with differs
    · simp at added
    · simpa [RawRepDef.slots] using not_not.mp differs
  · unfold addFsl at added
    cases known : builder.len with
    | none => simpa [known, eq_comm, RawRepDef.children] using added
    | some len =>
      simp only [known] at added
      split_ifs at added
      · simp at added
      · simpa [eq_comm, RawRepDef.children] using added

theorem checkOffsetLen_eq_some {builder checked : RepDefBuilder} {offsets : List Nat}
    (ok : builder.checkOffsetLen offsets = some checked) :
    (∀ len ∈ builder.len, offsets.length = len + 1) ∧
      ∃ last, offsets.getLast? = some last ∧ checked = { builder with len := some last } := by
  unfold checkOffsetLen at ok
  cases known : builder.len with
  | none =>
    simp only [known] at ok
    cases found : offsets.getLast? with
    | none => simp [found] at ok
    | some last =>
      simp only [found, Option.bind_eq_bind, Option.bind_some, Option.pure_def, Option.some.injEq] at ok
      exact ⟨by simp, last, rfl, ok.symm⟩
  | some len =>
    simp only [known] at ok
    split_ifs at ok with differs
    · simp at ok
    · cases found : offsets.getLast? with
      | none => simp [found] at ok
      | some last =>
        simp only [found, Option.bind_eq_bind, Option.bind_some, Option.pure_def, Option.some.injEq] at ok
        exact ⟨by simpa using not_not.mp differs, last, rfl, ok.symm⟩

/-- What the scan of `do_add_offsets` has counted after `count` lists: offsets
from zero, one per list and one more, and at most one special per list. -/
structure OffsetScan.Counts (count : Nat) (scan : OffsetScan) : Prop where
  start : scan.normalizedOffsets.head? = some 0
  length : scan.normalizedOffsets.length = count + 1
  specials : scan.numSpecials ≤ count

theorem OffsetScan.counts_start : OffsetScan.start.Counts 0 := ⟨rfl, rfl, le_rfl⟩

theorem OffsetScan.Counts.push {count offset : Nat} {scan next : OffsetScan} (counts : scan.Counts count)
    (pushed : next.normalizedOffsets = scan.normalizedOffsets ++ [offset])
    (more : next.numSpecials ≤ scan.numSpecials + 1) : next.Counts (count + 1) := by
  obtain ⟨start, length, fewer⟩ := counts
  obtain ⟨rest, same⟩ := List.head?_eq_some_iff.mp start
  exact ⟨by simp [pushed, same], by simp [pushed, length], by omega⟩

theorem OffsetScan.Counts.scanList {count len : Nat} {scan : OffsetScan} (counts : scan.Counts count) :
    (scanList scan len).Counts (count + 1) := by
  unfold RepDefBuilder.scanList
  split_ifs <;> exact counts.push rfl (by simp)

theorem OffsetScan.Counts.scanNullableList {count : Nat} {scan : OffsetScan} (counts : scan.Counts count)
    (list : Nat × Bool) : (scanNullableList scan list).Counts (count + 1) := by
  obtain ⟨len, isValid⟩ := list
  unfold RepDefBuilder.scanNullableList
  dsimp only
  split <;> exact counts.push rfl (by simp)

theorem scanList_marked {scan : OffsetScan} (marked : scan.numSpecials = 0 ∨ scan.hasEmptyLists = true) (len : Nat) :
    (scanList scan len).numSpecials = 0 ∨ (scanList scan len).hasEmptyLists = true := by
  unfold RepDefBuilder.scanList
  split_ifs
  · simp
  · simpa using marked

/-- A scan that counted its lists records a list layer that fits: offsets from
zero, one per list and one more, and its specials marked. -/
theorem adds_of_scan {builder checked : RepDefBuilder} {count : Nat} {scan : OffsetScan}
    {validity : Option (List Bool)} (counts : scan.Counts count)
    (marked : scan.numSpecials = 0 ∨ scan.hasEmptyLists = true ∨ validity.isSome = true)
    (ok : builder.checkOffsetLen scan.normalizedOffsets = some checked) :
    Adds builder { checked with repdefs := checked.repdefs ++ [.offsets ⟨scan.normalizedOffsets, validity,
      scan.hasEmptyLists, scan.normalizedOffsets.length - 1, scan.numSpecials⟩] } := by
  obtain ⟨lengthOk, last, found, rfl⟩ := checkOffsetLen_eq_some ok
  obtain ⟨start, length, fewer⟩ := counts
  refine ⟨.offsets ⟨scan.normalizedOffsets, validity, scan.hasEmptyLists, scan.normalizedOffsets.length - 1,
    scan.numSpecials⟩, ⟨start, by dsimp only; omega, by dsimp only; omega, marked⟩, fun len mem => ?_, ?_⟩
  · have lists := lengthOk len mem
    simp only [RawRepDef.slots]
    omega
  · simp [RawRepDef.children, List.getLastD_eq_getLast?, found]

/-- `do_add_offsets` records a list layer that fits. -/
theorem doAddOffsets_adds {builder next : RepDefBuilder} {lengths : List Nat} {validity : Option (List Bool)}
    {garbage : Bool} (added : builder.doAddOffsets lengths validity = some (next, garbage)) : Adds builder next := by
  unfold doAddOffsets at added
  obtain ⟨checked, ok, recorded⟩ := Option.bind_eq_some_iff.mp added
  simp only [Option.pure_def, Option.some.injEq, Prod.mk.injEq] at recorded
  obtain ⟨rfl, -⟩ := recorded
  cases validity with
  | some bits =>
    have counts : ((lengths.zip bits).foldl scanNullableList OffsetScan.start).Counts (0 + (lengths.zip bits).length) :=
      Library.foldl_invariant_length (fun count scan => OffsetScan.Counts count scan)
        (fun _ _ list counts => counts.scanNullableList list) OffsetScan.counts_start
    exact adds_of_scan counts (by simp) ok
  | none =>
    -- without a bitmap, the specials are the empty lists
    have both : (lengths.foldl scanList OffsetScan.start).Counts (0 + lengths.length) ∧
        ((lengths.foldl scanList OffsetScan.start).numSpecials = 0 ∨
          (lengths.foldl scanList OffsetScan.start).hasEmptyLists = true) :=
      Library.foldl_invariant_length
        (fun count scan => OffsetScan.Counts count scan ∧ (scan.numSpecials = 0 ∨ scan.hasEmptyLists = true))
        (fun _ _ len kept => ⟨kept.1.scanList, scanList_marked kept.2 len⟩) ⟨OffsetScan.counts_start, Or.inl rfl⟩
    exact adds_of_scan both.1 (by simpa [or_assoc] using both.2) ok

/-- The builders the encoder makes: the default one, then one layer more for
each `add_*` call that returned. A fixed-size-list layer's bitmap has a bit per
fixed-size list, as Arrow's null buffers do. -/
inductive Recorded : RepDefBuilder → Prop
  | default : Recorded RepDefBuilder.default
  | addNoNull {builder next : RepDefBuilder} {len : Nat} :
      Recorded builder → builder.addNoNull len = some next → Recorded next
  | addValidityBitmap {builder next : RepDefBuilder} {validity : List Bool} :
      Recorded builder → builder.addValidityBitmap validity = some next → Recorded next
  | addOffsets {builder next : RepDefBuilder} {offsets : OffsetBuffer} {validity : Option (List Bool)}
      {garbage : Bool} : Recorded builder → builder.addOffsets offsets validity = some (next, garbage) → Recorded next
  | addFsl {builder next : RepDefBuilder} {validity : Option (List Bool)} {dimension numValues : Nat} :
      Recorded builder → (∀ bits ∈ validity, bits.length = numValues) →
        builder.addFsl validity dimension numValues = some next → Recorded next

theorem Recorded.fits {builder : RepDefBuilder} (recorded : builder.Recorded) : builder.Fits := by
  induction recorded with
  | default => exact fits_default
  | addNoNull _ added fits => exact fits.adds (addNoNull_adds added)
  | addValidityBitmap _ added fits => exact fits.adds (addValidityBitmap_adds added)
  | addOffsets _ added fits => exact fits.adds (doAddOffsets_adds added)
  | addFsl _ bits added fits => exact fits.adds (addFsl_adds bits added)

end RepDefBuilder

end Lance.Encoding.RepDef
