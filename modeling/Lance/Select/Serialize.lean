import Lance.Library.LittleEndian
import Lance.Select.RowAddrSet

/-! The byte form of row selections. A `RowAddrTreeMap` is written as a `u32`
count and then, fragment by fragment in key order, the fragment id, the size of
its bitmap and the bitmap, a size of zero standing for a fully selected
fragment. A `RowAddrMask` travels as a nullable binary array of two slots, the
block list and then the allow list. The bitmaps' own format belongs to the
`roaring` crate and is a parameter here, with the two properties the code
relies on. -/

namespace Lance.Select

open Lance.Library

/-- The byte format of the `roaring` crate, which `lance-select` calls and does
not define: it reads back what it writes, and it never writes nothing. -/
structure RoaringFormat where
  serialize : RoaringBitmap → List UInt8
  deserialize : List UInt8 → Option RoaringBitmap
  deserialize_serialize : ∀ bitmap, deserialize (serialize bitmap) = some bitmap
  serialize_ne_nil : ∀ bitmap, serialize bitmap ≠ []

/-- A format meeting both properties: a marker byte, then the members in
increasing order, four bytes each. It shows the properties can be met; the
crate's own format is more compact. -/
def sortedWordsFormat : RoaringFormat where
  serialize bitmap := 1 :: encodeWords 4 (((FinEnum.toList UInt32).filter (· ∈ bitmap)).map UInt32.toNat)
  deserialize
    | 1 :: words => some ((decodeWords 4 words).map UInt32.ofNat).toFinset
    | _ => none
  deserialize_serialize bitmap := by
    have fits : ∀ value ∈ ((FinEnum.toList UInt32).filter (· ∈ bitmap)).map UInt32.toNat, value < 256 ^ 4 := by
      intro value member
      obtain ⟨row, _, rfl⟩ := List.mem_map.mp member
      exact row.toNat_lt
    simp only [decodeWords_encodeWords (by decide : 0 < 4) fits, List.map_map, Option.some.injEq]
    ext row
    simp [FinEnum.mem_toList]
  serialize_ne_nil _ := List.cons_ne_nil _ _

def writeU32 (value : UInt32) : List UInt8 := toLeBytes 4 value.toNat

def readU32 (input : List UInt8) : Option (UInt32 × List UInt8) :=
  (readLe 4 input).map fun read => (UInt32.ofNat read.1, read.2)

@[simp] theorem length_writeU32 (value : UInt32) : (writeU32 value).length = 4 := length_toLeBytes 4 _

theorem readU32_writeU32_append (value : UInt32) (rest : List UInt8) :
    readU32 (writeU32 value ++ rest) = some (value, rest) := by
  rw [readU32, writeU32, readLe_toLeBytes_append value.toNat_lt rest]
  simp

def i32Max : Nat := 2 ^ 31 - 1

variable (format : RoaringFormat)

namespace RowAddrTreeMap

def bitmapSize : RowAddrSelection → Nat
  | .partialRows set => (format.serialize set).length
  | .full => 0

def serializedSize (map : RowAddrTreeMap) : Nat :=
  -- four bytes of count; each entry its id and size, and a partial one its bitmap
  4 + (map.iter.map fun entry => 8 + bitmapSize format entry.2).sum

/-- What `serialize_into` writes after a fragment id: the bitmap's size and
the bitmap, or a zero size for a full fragment. -/
def entryBytes : RowAddrSelection → List UInt8
  | .partialRows set => writeU32 (UInt32.ofNat (format.serialize set).length) ++ format.serialize set
  | .full => writeU32 0

/-- `serialize_into`: the entry count, then each entry in key order. -/
def serializeInto (map : RowAddrTreeMap) : List UInt8 :=
  writeU32 (UInt32.ofNat map.inner.entries.length) ++
    map.iter.flatMap fun entry => writeU32 entry.1 ++ entryBytes format entry.2

/-- The loop of `deserialize_from`: `count` entries, each inserted as read. -/
def readEntries : Nat → Inner → List UInt8 → Option Inner
  | 0, inner, _ => some inner
  | count + 1, inner, input => do
    let (fragment, input) ← readU32 input
    let (bitmapSize, input) ← readU32 input
    if bitmapSize = 0 then readEntries count (inner.insert fragment .full) input
    else
      let (buffer, input) ← readExact bitmapSize.toNat input
      let set ← format.deserialize buffer
      readEntries count (inner.insert fragment (.partialRows set)) input

def deserializeFrom (input : List UInt8) : Option RowAddrTreeMap := do
  let (numEntries, input) ← readU32 input
  let inner ← readEntries format numEntries.toNat ∅ input
  pure ⟨inner⟩

/-- `serialized_size` is the length of what `serialize_into` writes, so the
slice `into_arrow` hands it is filled exactly. -/
theorem length_serializeInto (map : RowAddrTreeMap) :
    (serializeInto format map).length = serializedSize format map := by
  have entryLength : ∀ selection, (entryBytes format selection).length = 4 + bitmapSize format selection := by
    intro selection
    cases selection <;> simp [entryBytes, bitmapSize]
  simp only [serializeInto, serializedSize, List.length_append, length_writeU32, List.length_flatMap,
    entryLength]
  congr 1
  apply congrArg List.sum
  apply List.map_congr_left
  intro entry _
  omega

/-- One entry read back: the id, then a zero size for a full fragment, or the
size and the bitmap. -/
theorem readEntries_cons (count : Nat) (inner : Inner) (entry : Σ _ : UInt32, RowAddrSelection)
    (rest : List UInt8) (fits : bitmapSize format entry.2 < 2 ^ 32) :
    readEntries format (count + 1) inner (writeU32 entry.1 ++ entryBytes format entry.2 ++ rest) =
      readEntries format count (inner.insert entry.1 entry.2) rest := by
  obtain ⟨fragment, selection⟩ := entry
  cases selection with
  | full =>
    simp only [readEntries, entryBytes, List.append_assoc, readU32_writeU32_append, Option.bind_eq_bind,
      Option.bind_some, ↓reduceIte]
  | partialRows set =>
    have positive : 0 < (format.serialize set).length := List.length_pos_iff.mpr (format.serialize_ne_nil set)
    have fitsWord : (format.serialize set).length < 2 ^ 32 := fits
    have size : (UInt32.ofNat (format.serialize set).length).toNat = (format.serialize set).length := by
      rw [UInt32.toNat_ofNat']
      exact Nat.mod_eq_of_lt fitsWord
    -- a nonempty bitmap of fewer than `2 ^ 32` bytes has a size that is not zero
    have nonzero : UInt32.ofNat (format.serialize set).length ≠ 0 := by
      intro zero
      have empty : (format.serialize set).length = 0 := by
        rw [← size, zero]
        rfl
      omega
    simp only [readEntries, entryBytes, List.append_assoc, readU32_writeU32_append, Option.bind_eq_bind,
      Option.bind_some, nonzero, ↓reduceIte, size, readExact_append, format.deserialize_serialize]

theorem readEntries_flatMap (inner : Inner) (rest : List UInt8) :
    ∀ entries : List (Σ _ : UInt32, RowAddrSelection), (∀ entry ∈ entries, bitmapSize format entry.2 < 2 ^ 32) →
      readEntries format entries.length inner
          ((entries.flatMap fun entry => writeU32 entry.1 ++ entryBytes format entry.2) ++ rest) =
        some (entries.foldl (fun acc entry => acc.insert entry.1 entry.2) inner) := by
  intro entries
  induction entries generalizing inner with
  | nil => intro _; rfl
  | cons entry others ih =>
    intro fits
    rw [List.flatMap_cons, List.append_assoc, List.length_cons, readEntries_cons format _ _ _ _
      (fits entry List.mem_cons_self), List.foldl_cons]
    exact ih _ fun other member => fits other (List.mem_cons_of_mem _ member)

/-- The tree map's byte round trip: `deserialize_from` gives back a map equal
to the one written, when its count and bitmap sizes fit their `u32` fields. -/
theorem deserializeFrom_serializeInto (map : RowAddrTreeMap) (rest : List UInt8)
    (countFits : map.inner.entries.length < 2 ^ 32)
    (sizesFit : ∀ entry ∈ map.inner.entries, bitmapSize format entry.2 < 2 ^ 32) :
    ∃ decoded, deserializeFrom format (serializeInto format map ++ rest) = some decoded ∧ decoded.Equiv map := by
  have sameLength : map.iter.length = map.inner.entries.length := (perm_iter map).length_eq
  have iterFits : ∀ entry ∈ map.iter, bitmapSize format entry.2 < 2 ^ 32 :=
    fun entry member => sizesFit entry ((perm_iter map).mem_iff.mp member)
  have count : (UInt32.ofNat map.inner.entries.length).toNat = map.iter.length := by
    rw [UInt32.toNat_ofNat', sameLength]
    exact Nat.mod_eq_of_lt countFits
  refine ⟨⟨map.iter.foldl (fun acc entry => acc.insert entry.1 entry.2) ∅⟩, ?_, ?_⟩
  · simp only [deserializeFrom, serializeInto, List.append_assoc, readU32_writeU32_append, Option.bind_eq_bind,
      Option.bind_some, count, readEntries_flatMap format ∅ rest map.iter iterFits]
    rfl
  · -- the entries were inserted into an empty map in key order
    have inserted := perm_foldl_insert map.iter ∅ (nodupKeys_iter map) fun key _ absent => by
      simp at absent
    rw [AList.empty_entries, List.append_nil] at inserted
    exact inserted.trans (perm_iter map)

theorem serializedSize_eq_entries (map : RowAddrTreeMap) :
    serializedSize format map = 4 + (map.inner.entries.map fun entry => 8 + bitmapSize format entry.2).sum := by
  rw [serializedSize, ((perm_iter map).map _).sum_eq]

theorem entrySizes_bounds (entries : List (Σ _ : UInt32, RowAddrSelection)) :
    8 * entries.length ≤ (entries.map fun entry => 8 + bitmapSize format entry.2).sum ∧
      ∀ entry ∈ entries, bitmapSize format entry.2 ≤ (entries.map fun entry => 8 + bitmapSize format entry.2).sum := by
  induction entries with
  | nil => simp
  | cons entry rest ih =>
    obtain ⟨count, each⟩ := ih
    simp only [List.map_cons, List.sum_cons, List.length_cons, List.mem_cons, forall_eq_or_imp]
    refine ⟨by omega, by omega, fun other member => ?_⟩
    have := each other member
    omega

theorem fits_of_serializedSize_le {map : RowAddrTreeMap} (small : serializedSize format map ≤ i32Max) :
    map.inner.entries.length < 2 ^ 32 ∧ ∀ entry ∈ map.inner.entries, bitmapSize format entry.2 < 2 ^ 32 := by
  rw [serializedSize_eq_entries] at small
  obtain ⟨count, each⟩ := entrySizes_bounds format map.inner.entries
  unfold i32Max at small
  refine ⟨by omega, fun entry member => ?_⟩
  have := each entry member
  omega

end RowAddrTreeMap

/-- A nullable `BinaryArray`, by its slots: null, or the bytes of the value. -/
abbrev BinaryArray := List (Option (List UInt8))

namespace RowAddrMask

def treeMap : RowAddrMask → RowAddrTreeMap
  | .allowList allow => allow
  | .blockList block => block

/-- `into_arrow`: the block list in the first slot and the allow list in the
second, the other one null. Arrow's `OffsetBuffer::from_lengths` panics when
the last offset passes `i32::MAX`. -/
def intoArrow (mask : RowAddrMask) : Option BinaryArray :=
  let lists : Option RowAddrTreeMap × Option RowAddrTreeMap :=
    match mask with
    | .allowList allow => (none, some allow)
    | .blockList block => (some block, none)
  let blockListLength := (lists.1.map (RowAddrTreeMap.serializedSize format)).getD 0
  let allowListLength := (lists.2.map (RowAddrTreeMap.serializedSize format)).getD 0
  if blockListLength + allowListLength ≤ i32Max then
    some [lists.1.map (RowAddrTreeMap.serializeInto format), lists.2.map (RowAddrTreeMap.serializeInto format)]
  else none

/-- `from_arrow`: a block list, an allow list, or both, the block list then
taken out of the allow list; neither allows every row. -/
def fromArrow (array : BinaryArray) : Option RowAddrMask := do
  let blockSlot ← array[0]?
  let allowSlot ← array[1]?
  let blockList ← blockSlot.mapM (RowAddrTreeMap.deserializeFrom format)
  let allowList ← allowSlot.mapM (RowAddrTreeMap.deserializeFrom format)
  pure <|
    match blockList, allowList with
    | some bl, none => .blockList bl
    | none, some al => .allowList al
    | some block, some allow => (RowAddrMask.allowList allow).alsoBlock block
    | none, none => allRows

/-- The Arrow round trip of a mask whose tree map fits the `i32` offsets:
`into_arrow` succeeds and `from_arrow` gives back an equal mask. -/
theorem fromArrow_intoArrow (mask : RowAddrMask) (small : mask.treeMap.serializedSize format ≤ i32Max) :
    ∃ array, mask.intoArrow format = some array ∧
      ∃ decoded, fromArrow format array = some decoded ∧ decoded.Equiv mask := by
  obtain ⟨countFits, sizesFit⟩ := RowAddrTreeMap.fits_of_serializedSize_le format small
  obtain ⟨decoded, read, same⟩ :=
    RowAddrTreeMap.deserializeFrom_serializeInto format mask.treeMap [] countFits sizesFit
  rw [List.append_nil] at read
  cases mask with
  | allowList allow =>
    have room : 0 + allow.serializedSize format ≤ i32Max := by simpa [treeMap] using small
    refine ⟨[none, some (allow.serializeInto format)], by simp only [intoArrow, Option.map_none,
      Option.map_some, Option.getD_none, Option.getD_some, room, ↓reduceIte], .allowList decoded, ?_, same⟩
    simp only [fromArrow, List.getElem?_cons_zero, List.getElem?_cons_succ, treeMap] at read ⊢
    simp [read]
  | blockList block =>
    have room : block.serializedSize format + 0 ≤ i32Max := by simpa [treeMap] using small
    refine ⟨[some (block.serializeInto format), none], by simp only [intoArrow, Option.map_none,
      Option.map_some, Option.getD_none, Option.getD_some, room, ↓reduceIte], .blockList decoded, ?_, same⟩
    simp only [fromArrow, List.getElem?_cons_zero, List.getElem?_cons_succ, treeMap] at read ⊢
    simp [read]

/-- The logical operators and `also_block`/`also_allow` act on the rows each
mask selects; a mask whose tree map fits the `i32` offsets of a `BinaryArray`
comes back from Arrow equal to itself. -/
theorem selected_ops_and_arrow_round_trip (format : RoaringFormat) (m1 m2 : RowAddrMask) (t : RowAddrTreeMap)
    (x : UInt64) :
    (m1 &&& m2).selected x = (m1.selected x && m2.selected x) ∧
    (m1 ||| m2).selected x = (m1.selected x || m2.selected x) ∧
    (~~~m1).selected x = !m1.selected x ∧
    (m1.alsoBlock t).selected x = (m1.selected x && !t.contains x) ∧
    (m1.alsoAllow t).selected x = (m1.selected x || t.contains x) ∧
    (m1.treeMap.serializedSize format ≤ i32Max →
      ∃ array, m1.intoArrow format = some array ∧
        ∃ decoded, fromArrow format array = some decoded ∧ decoded.Equiv m1) :=
  ⟨selected_and m1 m2 x, selected_or m1 m2 x, selected_not m1 x, selected_alsoBlock m1 t x,
    selected_alsoAllow m1 t x, fromArrow_intoArrow format m1⟩

theorem selected_ops_and_arrow_round_trip_at_all_rows :
    ∃ array, allRows.intoArrow sortedWordsFormat = some array ∧
      ∃ decoded, fromArrow sortedWordsFormat array = some decoded ∧ decoded.Equiv allRows :=
  (selected_ops_and_arrow_round_trip sortedWordsFormat allRows allowNothing .new 0).2.2.2.2.2
    (by simp [treeMap, RowAddrTreeMap.serializedSize, RowAddrTreeMap.iter, allRows, RowAddrTreeMap.new, i32Max])

/-- Fully selected entries for the fragments below `count`. -/
def fullFragmentEntries (count : Nat) : List (Σ _ : UInt32, RowAddrSelection) :=
  (List.range count).map fun fragment => ⟨UInt32.ofNat fragment, .full⟩

theorem nodupKeys_fullFragmentEntries {count : Nat} (fits : count ≤ 2 ^ 32) :
    (fullFragmentEntries count).NodupKeys := by
  unfold List.NodupKeys fullFragmentEntries
  rw [List.keys, List.map_map]
  apply List.Nodup.map_on _ List.nodup_range
  intro first firstBelow second secondBelow same
  rw [List.mem_range] at firstBelow secondBelow
  have words := congrArg UInt32.toNat same
  simp only [Function.comp_apply, UInt32.toNat_ofNat'] at words
  rw [Nat.mod_eq_of_lt (by omega), Nat.mod_eq_of_lt (by omega)] at words
  exact words

/-- The fragments below `count`, each fully selected. -/
def fullFragments (count : Nat) (fits : count ≤ 2 ^ 32) : RowAddrTreeMap :=
  ⟨⟨fullFragmentEntries count, nodupKeys_fullFragmentEntries fits⟩⟩

theorem sum_fullFragmentEntries (format : RoaringFormat) (count : Nat) :
    ((fullFragmentEntries count).map fun entry => 8 + RowAddrTreeMap.bitmapSize format entry.2).sum = 8 * count := by
  simp only [fullFragmentEntries, List.map_map, Function.comp_def, RowAddrTreeMap.bitmapSize, Nat.add_zero,
    List.map_const', List.length_range, List.sum_replicate_nat, Nat.mul_comm]

theorem serializedSize_fullFragments (format : RoaringFormat) (count : Nat) (fits : count ≤ 2 ^ 32) :
    (fullFragments count fits).serializedSize format = 4 + 8 * count := by
  rw [RowAddrTreeMap.serializedSize_eq_entries]
  exact congrArg (4 + ·) (sum_fullFragmentEntries format count)

theorem intoArrow_fullFragments (format : RoaringFormat) (count : Nat) (fits : count ≤ 2 ^ 32)
    (tooMany : i32Max < 4 + 8 * count) :
    (allowList (fullFragments count fits)).intoArrow format = none := by
  have tooLarge : ¬0 + (fullFragments count fits).serializedSize format ≤ i32Max := by
    rw [serializedSize_fullFragments]
    omega
  simp only [intoArrow, Option.map_none, Option.map_some, Option.getD_none, Option.getD_some, tooLarge,
    ↓reduceIte]

/-- An allow list of the `2 ^ 28` fragments `0` to `2 ^ 28 - 1`, each whole,
takes `2 ^ 31 + 4` bytes, and `into_arrow` panics on it. -/
theorem intoArrow_fails_at_many_full_fragments :
    (allowList (fullFragments (2 ^ 28) (by decide))).intoArrow sortedWordsFormat = none :=
  intoArrow_fullFragments sortedWordsFormat (2 ^ 28) _ (by decide)

end RowAddrMask

end Lance.Select
