import Lance.Library.Chunks
import Lance.Library.LittleEndian
import Lance.Library.Settles
import Lance.Library.WordArith

/-! The run-length decoder of `lance-encoding`: a buffer of values and a buffer
of run lengths, each value repeated as many times as its run says, into a block
of `num_values` fixed-width values. The two buffers may first pass through
child decompressors, one of which may need the number of runs read off the
other. A block payload starts with the size of its values buffer; a miniblock
payload comes as the two buffers. The output is reserved in full before the
runs are decoded, so a run never grows it past what was reserved; a miniblock
cuts a last run that overflows, where a block rejects it. -/

namespace Lance.Encoding

open Lance.Library

/-- `FixedWidthDataBlock`: `num_values` values of `bits_per_value` bits. -/
structure FixedWidthDataBlock where
  bitsPerValue : UInt64
  data : List UInt8
  numValues : UInt64

/-- `DataBlock`: a fixed-width block, or a block of another kind, which nothing
here reads. -/
inductive DataBlock where
  | fixedWidth (block : FixedWidthDataBlock)
  | other

inductive RunLengthWidth where
  | u8
  | u16
  | u32
  deriving DecidableEq, Repr

namespace RunLengthWidth

def bitsPerValue : RunLengthWidth → UInt64
  | u8 => 8
  | u16 => 16
  | u32 => 32

def bytesPerValue : RunLengthWidth → Nat
  | u8 => 1
  | u16 => 2
  | u32 => 4

/-- `read_length`: the first bytes as a little-endian word; indexing past the
slice panics. -/
def readLength (width : RunLengthWidth) (bytes : List UInt8) : Option Nat :=
  (readLe width.bytesPerValue bytes).map Prod.fst

theorem bytesPerValue_pos (width : RunLengthWidth) : 0 < width.bytesPerValue := by
  cases width <;> decide

theorem bytesPerValue_le (width : RunLengthWidth) : width.bytesPerValue ≤ 4 := by
  cases width <;> decide

theorem readLength_of_length {width : RunLengthWidth} {bytes : List UInt8} (sized : bytes.length = width.bytesPerValue) :
    width.readLength bytes = some (fromLeBytes bytes) ∧ fromLeBytes bytes < 2 ^ 32 := by
  refine ⟨by simp [readLength, readLe, ← sized], ?_⟩
  calc fromLeBytes bytes < 256 ^ bytes.length := fromLeBytes_lt bytes
    _ ≤ 256 ^ 4 := Nat.pow_le_pow_right (by decide) (sized ▸ width.bytesPerValue_le)
    _ = 2 ^ 32 := by decide

end RunLengthWidth

/-- `RleChildDecompressorInner`: the buffer as it is, or a block decompressor,
a total function here, that may need the number of values. -/
inductive RleChildDecompressorInner where
  | flat
  | block (decompressor : List UInt8 → UInt64 → Except String DataBlock) (requiresNumValues : Bool)

structure RleChildDecompressor where
  bitsPerValue : UInt64
  inner : RleChildDecompressorInner

namespace RleChildDecompressor

/-- `flat`: the buffer taken as it is. -/
def flat (bitsPerValue : UInt64) : RleChildDecompressor := ⟨bitsPerValue, .flat⟩

def requiresNumValues (child : RleChildDecompressor) : Bool :=
  match child.inner with
  | .flat => false
  | .block _ requiresNumValues => requiresNumValues

/-- `extract_fixed_width`: the data of a fixed-width block of the child's width
and, when a count is expected, of that count. -/
def extractFixedWidth (child : RleChildDecompressor) (data : DataBlock) (expectedNumValues : UInt64) (label : String) :
    Except String (List UInt8) :=
  match data with
  | .fixedWidth block =>
    if block.bitsPerValue ≠ child.bitsPerValue then
      throw ("RLE " ++ label ++ " child decoded " ++ toString block.bitsPerValue ++ "-bit values, expected " ++
        toString child.bitsPerValue)
    else if expectedNumValues ≠ 0 ∧ block.numValues ≠ expectedNumValues then
      throw ("RLE " ++ label ++ " child decoded " ++ toString block.numValues ++ " values, expected " ++
        toString expectedNumValues)
    else pure block.data
  | .other => throw ("RLE " ++ label ++ " child decoded to a non fixed-width block")

def decode (child : RleChildDecompressor) (data : List UInt8) (numValues : Option UInt64) (label : String) :
    Except String (List UInt8) :=
  match child.inner with
  | .flat => pure data
  | .block decompressor requiresNumValues => do
    let numValues ← if requiresNumValues then
        match numValues with
        | some numValues => pure numValues
        | none => throw ("RLE " ++ label ++ " child compression requires the run count")
      else pure (numValues.getD 0)
    let decoded ← decompressor data numValues
    child.extractFixedWidth decoded numValues label

end RleChildDecompressor

structure RleDecompressor where
  bitsPerValue : UInt64
  runLengthWidth : RunLengthWidth
  values : RleChildDecompressor
  runLengths : RleChildDecompressor

namespace RleDecompressor

/-- `with_run_length_width`: both buffers taken as they are. -/
def withRunLengthWidth (bitsPerValue : UInt64) (runLengthWidth : RunLengthWidth) : RleDecompressor :=
  ⟨bitsPerValue, runLengthWidth, .flat bitsPerValue, .flat runLengthWidth.bitsPerValue⟩

/-- `num_child_values`: how many values of the child's width the buffer holds. -/
def numChildValues (buffer : List UInt8) (bitsPerValue : UInt64) (label : String) : Except String UInt64 :=
  let bytesPerValue := bitsPerValue.toNat / 8
  if bytesPerValue = 0 ∨ buffer.length % bytesPerValue ≠ 0 then
    throw ("RLE " ++ label ++ " child decoded to " ++ toString buffer.length ++ " bytes, not divisible by " ++
      toString bytesPerValue)
  else pure (UInt64.ofNat (buffer.length / bytesPerValue))

/-- `decode_child_buffers`: at most one child may need the number of runs,
which the other child's output gives. -/
def decodeChildBuffers (decompressor : RleDecompressor) (valuesBuffer lengthsBuffer : List UInt8) :
    Except String (List UInt8 × List UInt8) :=
  let valuesRequiresNumRuns := decompressor.values.requiresNumValues
  let lengthsRequiresNumRuns := decompressor.runLengths.requiresNumValues
  if valuesRequiresNumRuns ∧ lengthsRequiresNumRuns then
    throw "RLE values and run lengths child compression both require the run count"
  else if valuesRequiresNumRuns then do
    let lengthsBuffer ← decompressor.runLengths.decode lengthsBuffer none "run lengths"
    let numRuns ← numChildValues lengthsBuffer decompressor.runLengths.bitsPerValue "run lengths"
    let valuesBuffer ← decompressor.values.decode valuesBuffer (some numRuns) "values"
    pure (valuesBuffer, lengthsBuffer)
  else if lengthsRequiresNumRuns then do
    let valuesBuffer ← decompressor.values.decode valuesBuffer none "values"
    let numRuns ← numChildValues valuesBuffer decompressor.values.bitsPerValue "values"
    let lengthsBuffer ← decompressor.runLengths.decode lengthsBuffer (some numRuns) "run lengths"
    pure (valuesBuffer, lengthsBuffer)
  else do
    let valuesBuffer ← decompressor.values.decode valuesBuffer none "values"
    let lengthsBuffer ← decompressor.runLengths.decode lengthsBuffer none "run lengths"
    pure (valuesBuffer, lengthsBuffer)

/-- `Vec::try_reserve_exact` on an empty vector: a request of more than
`isize::MAX` bytes is refused, and any other is as the allocator answers. -/
def tryReserveExact (allocates : Nat → Bool) (typeSize count : Nat) : Bool :=
  count * typeSize < 2 ^ 63 && allocates (count * typeSize)

/-- The loop of `decode_generic` over the runs, with the values decoded so far.
A zero run is rejected; a run longer than what is left is an error for a block
and cut short for a miniblock. -/
def decodeRuns (width : RunLengthWidth) (expectedValueCount : Nat) (clampOverflow : Bool) :
    List (List UInt8 × List UInt8) → List (List UInt8) → ExceptT String Option (List (List UInt8))
  | [], decoded => pure decoded
  | (value, lengthBytes) :: rest, decoded => do
    let length ← (width.readLength lengthBytes : Option Nat)
    if length = 0 then throw "RLE decoding encountered a zero run length"
    else
      let remaining ← (debugSub expectedValueCount decoded.length : Option Nat)
      if length > remaining then
        if !clampOverflow then
          let produced ← (debugAdd 64 decoded.length length : Option Nat)
          throw ("RLE decoding overflowed expected value count: produced at least " ++ toString produced ++
            ", expected " ++ toString expectedValueCount)
        else pure (decoded ++ List.replicate remaining value)
      else decodeRuns width expectedValueCount clampOverflow rest (decoded ++ List.replicate length value)

/-- `decode_generic::<T>` for a `T` of `typeSize` bytes named `typeName`: each
value is its `typeSize` bytes. -/
def decodeGeneric (decompressor : RleDecompressor) (allocates : Nat → Bool) (typeSize : Nat) (typeName : String)
    (valuesBuffer lengthsBuffer : List UInt8) (numValues : UInt64) (clampOverflow : Bool) :
    ExceptT String Option (List UInt8) :=
  let lengthSize := decompressor.runLengthWidth.bytesPerValue
  if valuesBuffer.isEmpty || lengthsBuffer.isEmpty then
    if numValues = 0 then pure []
    else throw ("Empty buffers but expected " ++ toString numValues ++ " values")
  else if valuesBuffer.length % typeSize ≠ 0 ∨ lengthsBuffer.length % lengthSize ≠ 0 then
    throw ("Invalid buffer sizes for RLE " ++ typeName ++ " decoding: values " ++ toString valuesBuffer.length ++
      " bytes (not divisible by " ++ toString typeSize ++ "), lengths " ++ toString lengthsBuffer.length ++
      " bytes (not divisible by " ++ toString lengthSize ++ ")")
  else
    let numRuns := valuesBuffer.length / typeSize
    let numLengthEntries := lengthsBuffer.length / lengthSize
    if numRuns ≠ numLengthEntries then
      throw ("Inconsistent RLE buffers: " ++ toString numRuns ++ " runs but " ++ toString numLengthEntries ++
        " length entries")
    else
      -- `borrow_to_typed_slice` panics on a length that is not a multiple of the size, which is checked above
      let values := chunksExact typeSize valuesBuffer
      let expectedValueCount := numValues.toNat
      if !tryReserveExact allocates typeSize expectedValueCount then
        throw ("RLE decoding cannot allocate " ++ toString expectedValueCount ++ " values")
      else do
        let decoded ← decodeRuns decompressor.runLengthWidth expectedValueCount clampOverflow
          (values.zip (chunksExact lengthSize lengthsBuffer)) []
        if decoded.length ≠ expectedValueCount then
          throw ("RLE decoding produced " ++ toString decoded.length ++ " values, expected " ++
            toString expectedValueCount)
        else pure decoded.flatten

/-- The arms of the `match` of `decode_data` on the width: the size and name of
the type `decode_generic` reads. -/
def valueType (bitsPerValue : UInt64) : Option (Nat × String) :=
  if bitsPerValue = 8 then some (1, "u8")
  else if bitsPerValue = 16 then some (2, "u16")
  else if bitsPerValue = 32 then some (4, "u32")
  else if bitsPerValue = 64 then some (8, "u64")
  else none

def decodeData (decompressor : RleDecompressor) (allocates : Nat → Bool) (data : List (List UInt8)) (numValues : UInt64)
    (clampOverflow : Bool) : ExceptT String Option DataBlock :=
  if numValues = 0 then pure (.fixedWidth ⟨decompressor.bitsPerValue, [], 0⟩)
  else match data with
  | [valuesBuffer, lengthsBuffer] => do
    let (valuesBuffer, lengthsBuffer) ←
      (decompressor.decodeChildBuffers valuesBuffer lengthsBuffer : Except String (List UInt8 × List UInt8))
    let decodedData ← match valueType decompressor.bitsPerValue with
      | some (typeSize, typeName) =>
        decompressor.decodeGeneric allocates typeSize typeName valuesBuffer lengthsBuffer numValues clampOverflow
      | none =>
        throw ("RLE decoding bits_per_value must be 8, 16, 32, or 64, got " ++ toString decompressor.bitsPerValue)
    pure (.fixedWidth ⟨decompressor.bitsPerValue, decodedData, numValues⟩)
  | data => throw ("RLE decompressor expects exactly 2 buffers, got " ++ toString data.length)

/-- `MiniBlockDecompressor::decompress`: runs past the count are cut. -/
def miniBlockDecompress (decompressor : RleDecompressor) (allocates : Nat → Bool) (data : List (List UInt8))
    (numValues : UInt64) : ExceptT String Option DataBlock :=
  decompressor.decodeData allocates data numValues true

/-- `BlockDecompressor::decompress`: an 8-byte little-endian size of the values
buffer, the values buffer, and the run lengths after it. -/
def blockDecompress (decompressor : RleDecompressor) (allocates : Nat → Bool) (data : List UInt8) (numValues : UInt64) :
    ExceptT String Option DataBlock :=
  if data.length < 8 then throw ("Insufficient data size: " ++ toString data.length)
  else
    let valuesSize := fromLeBytes (data.take 8)
    -- `values_start.checked_add(values_size)` on a 64-bit `usize`
    if 8 + valuesSize ≥ 2 ^ 64 then throw "Invalid RLE values buffer size"
    else
      let lengthsStart := 8 + valuesSize
      if data.length < lengthsStart then throw ("Insufficient data size: " ++ toString data.length)
      else
        let valuesBuffer := (data.drop 8).take valuesSize
        let lengthsBuffer := data.drop lengthsStart
        decompressor.decodeData allocates [valuesBuffer, lengthsBuffer] numValues false

/-! ### No panic, and the count it promises -/

/-- What the loop of `decode_generic` keeps: every value is `typeSize` bytes,
and there are never more than expected. -/
def RunsInv (typeSize expectedValueCount : Nat) (decoded : List (List UInt8)) : Prop :=
  (∀ value ∈ decoded, value.length = typeSize) ∧ decoded.length ≤ expectedValueCount

theorem runsInv_append_replicate {typeSize expectedValueCount count : Nat} {decoded : List (List UInt8)}
    {value : List UInt8} (inv : RunsInv typeSize expectedValueCount decoded) (valueSize : value.length = typeSize)
    (room : count ≤ expectedValueCount - decoded.length) :
    RunsInv typeSize expectedValueCount (decoded ++ List.replicate count value) := by
  refine ⟨fun other member => ?_, ?_⟩
  · rcases List.mem_append.mp member with old | copy
    · exact inv.1 other old
    · rw [List.eq_of_mem_replicate copy, valueSize]
  · have := inv.2
    simp only [List.length_append, List.length_replicate]
    omega

/-- The loop never panics: the slices of run lengths have the width's size, the
values decoded never pass the count, and a count that can be reserved leaves
room for a run of `u32` length in the sum of the overflow message. -/
theorem decodeRuns_settles {width : RunLengthWidth} {typeSize expectedValueCount : Nat} {clampOverflow : Bool}
    (reservable : expectedValueCount < 2 ^ 63) :
    ∀ (runs : List (List UInt8 × List UInt8)) (decoded : List (List UInt8)),
      (∀ run ∈ runs, run.1.length = typeSize ∧ run.2.length = width.bytesPerValue) →
      RunsInv typeSize expectedValueCount decoded →
      Settles (decodeRuns width expectedValueCount clampOverflow runs decoded) (RunsInv typeSize expectedValueCount)
  | [], _, _, inv => inv
  | (value, lengthBytes) :: rest, decoded, sized, inv => by
    obtain ⟨valueSize, lengthSize⟩ : value.length = typeSize ∧ lengthBytes.length = width.bytesPerValue :=
      sized _ List.mem_cons_self
    obtain ⟨read, short⟩ := RunLengthWidth.readLength_of_length lengthSize
    have restSized : ∀ run ∈ rest, run.1.length = typeSize ∧ run.2.length = width.bytesPerValue :=
      fun run member => sized run (List.mem_cons_of_mem _ member)
    rw [decodeRuns]
    refine Settles.bind (settles_liftOption read rfl) ?_
    rintro length rfl
    split
    · exact settles_throw
    refine Settles.bind (settles_liftOption (debugSub_of_le inv.2) rfl) ?_
    rintro remaining rfl
    split
    · split
      · have fits : decoded.length + fromLeBytes lengthBytes < 2 ^ 64 := by
          have := inv.2
          omega
        exact Settles.bind (P := fun _ => True) (settles_liftOption (debugAdd_of_lt fits) trivial) fun _ _ => trivial
      · exact runsInv_append_replicate inv valueSize (Nat.le_refl _)
    · rename_i within
      exact decodeRuns_settles reservable rest _ restSized
        (runsInv_append_replicate inv valueSize (Nat.le_of_not_lt within))

theorem decodeGeneric_settles (decompressor : RleDecompressor) (allocates : Nat → Bool) {typeSize : Nat}
    (positive : 0 < typeSize) (typeName : String) (valuesBuffer lengthsBuffer : List UInt8) (numValues : UInt64)
    (clampOverflow : Bool) :
    Settles (decompressor.decodeGeneric allocates typeSize typeName valuesBuffer lengthsBuffer numValues clampOverflow)
      fun data => data.length = numValues.toNat * typeSize := by
  unfold decodeGeneric
  dsimp only
  split
  · split
    · rename_i empty
      simp [empty]
    · exact settles_throw
  split
  · exact settles_throw
  split
  · exact settles_throw
  split
  · exact settles_throw
  rename_i reserved
  have reservable : numValues.toNat < 2 ^ 63 := by
    have granted : numValues.toNat * typeSize < 2 ^ 63 ∧ allocates (numValues.toNat * typeSize) = true := by
      simpa [tryReserveExact] using reserved
    exact Nat.lt_of_le_of_lt (Nat.le_mul_of_pos_right _ positive) granted.1
  have sized : ∀ run ∈ (chunksExact typeSize valuesBuffer).zip
      (chunksExact decompressor.runLengthWidth.bytesPerValue lengthsBuffer),
      run.1.length = typeSize ∧ run.2.length = decompressor.runLengthWidth.bytesPerValue := by
    rintro ⟨value, lengthBytes⟩ member
    obtain ⟨fromValues, fromLengths⟩ := List.of_mem_zip member
    exact ⟨length_of_mem_chunksExact fromValues, length_of_mem_chunksExact fromLengths⟩
  refine Settles.bind (decodeRuns_settles reservable _ [] sized ⟨by simp, by simp⟩) ?_
  rintro decoded ⟨valueSizes, _⟩
  split
  · exact settles_throw
  rename_i counted
  show decoded.flatten.length = numValues.toNat * typeSize
  rw [length_flatten_of_sized valueSizes, Decidable.not_not.mp counted]

theorem valueType_size {bitsPerValue : UInt64} {typeSize : Nat} {typeName : String}
    (typed : valueType bitsPerValue = some (typeSize, typeName)) : 0 < typeSize ∧ typeSize = bitsPerValue.toNat / 8 := by
  unfold valueType at typed
  split_ifs at typed with eight sixteen thirtyTwo sixtyFour <;> cases typed
  · exact ⟨by decide, by rw [eight]; decide⟩
  · exact ⟨by decide, by rw [sixteen]; decide⟩
  · exact ⟨by decide, by rw [thirtyTwo]; decide⟩
  · exact ⟨by decide, by rw [sixtyFour]; decide⟩

def FillsCount (decompressor : RleDecompressor) (numValues : UInt64) : DataBlock → Prop
  | .fixedWidth block => block.bitsPerValue = decompressor.bitsPerValue ∧ block.numValues = numValues ∧
      block.data.length = numValues.toNat * (decompressor.bitsPerValue.toNat / 8)
  | .other => False

theorem decodeData_settles (decompressor : RleDecompressor) (allocates : Nat → Bool) (data : List (List UInt8))
    (numValues : UInt64) (clampOverflow : Bool) :
    Settles (decompressor.decodeData allocates data numValues clampOverflow) (decompressor.FillsCount numValues) := by
  unfold decodeData
  split
  · rename_i zero
    subst zero
    exact ⟨rfl, rfl, by simp⟩
  split
  · refine Settles.bind (P := fun _ => True) (settles_liftExcept fun _ _ => trivial) ?_
    rintro ⟨valuesBuffer, lengthsBuffer⟩ -
    dsimp only
    split
    · rename_i typeSize typeName typed
      obtain ⟨positive, size⟩ := valueType_size typed
      refine Settles.bind (decodeGeneric_settles decompressor allocates positive typeName valuesBuffer lengthsBuffer
        numValues clampOverflow) ?_
      intro decodedData counted
      exact ⟨rfl, rfl, size ▸ counted⟩
    · exact Settles.bind (P := fun _ => False) settles_throw fun _ absurd => absurd.elim
  · exact settles_throw

theorem blockDecompress_settles (decompressor : RleDecompressor) (allocates : Nat → Bool) (data : List UInt8)
    (numValues : UInt64) :
    Settles (decompressor.blockDecompress allocates data numValues) (decompressor.FillsCount numValues) := by
  unfold blockDecompress
  dsimp only
  split
  · exact settles_throw
  split
  · exact settles_throw
  split
  · exact settles_throw
  · exact decodeData_settles decompressor allocates _ numValues false

/-- The run ends with an error, or with a fixed-width block of `numValues`
values of the decompressor's width. -/
def ErrsOrFills (decompressor : RleDecompressor) (numValues : UInt64) (run : ExceptT String Option DataBlock) : Prop :=
  (∃ message, run = throw message) ∨ ∃ block : FixedWidthDataBlock, run = pure (.fixedWidth block) ∧
    block.bitsPerValue = decompressor.bitsPerValue ∧ block.numValues = numValues ∧
    block.data.length = numValues.toNat * (decompressor.bitsPerValue.toNat / 8)

theorem errsOrFills_of_settles {decompressor : RleDecompressor} {numValues : UInt64}
    {run : ExceptT String Option DataBlock} (settles : Settles run (decompressor.FillsCount numValues)) :
    decompressor.ErrsOrFills numValues run := by
  rcases settles_iff.mp settles with failed | ⟨block, returned, fills⟩
  · exact Or.inl failed
  · cases block with
    | fixedWidth block => exact Or.inr ⟨block, returned, fills⟩
    | other => exact fills.elim

theorem decompress_errs_or_fills_num_values (decompressor : RleDecompressor) (allocates : Nat → Bool)
    (data : List UInt8) (buffers : List (List UInt8)) (numValues : UInt64) :
    decompressor.ErrsOrFills numValues (decompressor.blockDecompress allocates data numValues) ∧
      decompressor.ErrsOrFills numValues (decompressor.miniBlockDecompress allocates buffers numValues) :=
  ⟨errsOrFills_of_settles (blockDecompress_settles decompressor allocates data numValues),
    errsOrFills_of_settles (decodeData_settles decompressor allocates buffers numValues true)⟩

end RleDecompressor

end Lance.Encoding
