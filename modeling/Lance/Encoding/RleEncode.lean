import Lance.Encoding.Rle
import Lance.Library.ExceptRun
import Lance.Library.RunLength

/-! The run-length encoder of `lance-encoding` and its estimate of its own size.
The encoder scans the values for runs of equal values and writes each run as
its value and its length, a run too long for the length field cut into full
pieces and what remains; the block format puts the size of the values buffer
in front. The estimate counts, in a separate scan, how many entries each width
of the length field would take. Both scans visit the same runs, so the estimate
is the size the encoder writes, and what the encoder writes the decoder reads
back. -/

namespace Lance.Encoding

open Lance.Library

namespace RunLengthWidth

def maxRunLength : RunLengthWidth → Nat
  | u8 => 255
  | u16 => 65535
  | u32 => 4294967295

/-- `write_length`: the length cast to the width's word, little-endian. -/
def writeLength (width : RunLengthWidth) (length : Nat) : List UInt8 := toLeBytes width.bytesPerValue length

end RunLengthWidth

def runLengthWidths : List RunLengthWidth := [.u8, .u16, .u32]

def runLengthWidthIndex : RunLengthWidth → Nat
  | .u8 => 0
  | .u16 => 1
  | .u32 => 2

/-- `RleEncoder`. The block path and `encode_data` read only the width of the
run lengths; the compression of the two buffers is chosen elsewhere. -/
structure RleEncoder where
  runLengthWidth : RunLengthWidth

namespace RleEncoder

def withRunLengthWidth (runLengthWidth : RunLengthWidth) : RleEncoder := ⟨runLengthWidth⟩

/-- `add_run`: the run written as full pieces of the longest length the width
holds, then what remains. -/
def addRun (encoder : RleEncoder) (buffers : List UInt8 × List UInt8) (value : List UInt8) (length : Nat) :
    List UInt8 × List UInt8 :=
  let maxRunLength := encoder.runLengthWidth.maxRunLength
  let numFullChunks := length / maxRunLength
  let remainder := length % maxRunLength
  let (allValues, allLengths) := (List.range numFullChunks).foldl
    (fun buffers _ => (buffers.1 ++ value, buffers.2 ++ encoder.runLengthWidth.writeLength maxRunLength)) buffers
  if remainder > 0 then (allValues ++ value, allLengths ++ encoder.runLengthWidth.writeLength remainder)
  else (allValues, allLengths)

def encodeValues (encoder : RleEncoder) (values : List (List UInt8)) (buffers : List UInt8 × List UInt8) :
    List UInt8 × List UInt8 :=
  scanRuns encoder.addRun buffers values

def runSize (encoder : RleEncoder) (typeSize length : Nat) : Nat :=
  divCeil length encoder.runLengthWidth.maxRunLength * (typeSize + encoder.runLengthWidth.bytesPerValue)

def encodedSize (encoder : RleEncoder) (typeSize : Nat) (values : List (List UInt8)) : Nat :=
  scanRuns (fun size _ length => size + encoder.runSize typeSize length) 0 values

end RleEncoder

/-- The checks `collect_run_length_entries` and `encode_block_data_generic` both
make before reading their input as `num_values` values of `type_size` bytes. -/
def typedValues (data : List UInt8) (numValues typeSize : Nat) : Except String (List (List UInt8)) :=
  if numValues * typeSize ≥ 2 ^ 64 then
    throw ("RLE input byte length overflow: " ++ toString numValues ++ " values of " ++ toString typeSize ++ " bytes")
  else if data.length ≠ numValues * typeSize then
    throw ("RLE input data size mismatch: " ++ toString data.length ++ " bytes for " ++ toString numValues ++
      " values of " ++ toString typeSize ++ " bytes")
  else pure (chunksExact typeSize data)

def bitsPerValueError (bitsPerValue : UInt64) : String :=
  "RLE encoding bits_per_value must be 8, 16, 32, or 64, got " ++ toString bitsPerValue

namespace RleEncoder

def encodeBlockDataGeneric (encoder : RleEncoder) (typeSize : Nat) (data : List UInt8) (numValues : UInt64) :
    Except String (List UInt8 × List UInt8) := do
  let values ← typedValues data numValues.toNat typeSize
  if numValues = 0 then pure ([], [])
  else pure (encoder.encodeValues values ([], []))

/-- `encode_block_data`: the value type by the width, as the decoder reads it. -/
def encodeBlockData (encoder : RleEncoder) (data : List UInt8) (numValues bitsPerValue : UInt64) :
    Except String (List UInt8 × List UInt8) :=
  match RleDecompressor.valueType bitsPerValue with
  | some (typeSize, _) => encoder.encodeBlockDataGeneric typeSize data numValues
  | none => throw (bitsPerValueError bitsPerValue)

/-- `BlockCompressor::compress`: an 8-byte little-endian size of the values
buffer, the values buffer, and the run lengths after it. -/
def blockCompress (encoder : RleEncoder) (data : DataBlock) : Except String (List UInt8) :=
  match data with
  | .fixedWidth block => do
    let (allValues, allLengths) ← encoder.encodeBlockData block.data block.numValues block.bitsPerValue
    pure (toLeBytes 8 allValues.length ++ allValues ++ allLengths)
  | .other => throw "RLE encoding only supports FixedWidth data blocks"

end RleEncoder

/-! ### The size estimate -/

/-- `rle_encoded_size_from_entries`, in `u128`, where it cannot overflow. -/
def rleEncodedSizeFromEntries (entryCount bitsPerValue : UInt64) (width : RunLengthWidth) : Nat :=
  entryCount.toNat * (bitsPerValue.toNat / 8 + width.bytesPerValue)

/-- `select_run_length_width_from_entries`: the first width of least cost. -/
def selectRunLengthWidthFromEntries (entries : List UInt64) (bitsPerValue : UInt64) :
    Except String (RunLengthWidth × Nat) :=
  if entries.length ≠ runLengthWidths.length then
    throw ("RLE run length entry statistics must have " ++ toString runLengthWidths.length ++ " values, got " ++
      toString entries.length)
  else if bitsPerValue ∉ [8, 16, 32, 64] then throw (bitsPerValueError bitsPerValue)
  else
    let bestWidth := RunLengthWidth.u8
    let bestCost := rleEncodedSizeFromEntries (entries.getD 0 0) bitsPerValue bestWidth
    pure (((runLengthWidths.zip entries).drop 1).foldl (fun best candidate =>
      let cost := rleEncodedSizeFromEntries candidate.2 bitsPerValue candidate.1
      if cost < best.2 then (candidate.1, cost) else best) (bestWidth, bestCost))

/-- One segment of a run counted for each width: the entries it takes there,
added with saturation. -/
def countSegment (segment : Nat) (entries : List UInt64) : List UInt64 :=
  entries.zipWith (fun entry width => saturatingAdd entry (UInt64.ofNat (divCeil segment width.maxRunLength)))
    runLengthWidths

/-- The loop of `accumulate_run_length_entries` over the segments of a run. The
test that the segments are not empty always holds, `max_segment_values` being
at least one; it lets the loop end. -/
def accumulateSegments (maxSegmentValues : Nat) (entries : List UInt64) (remaining : Nat) : List UInt64 :=
  if _nonempty : 0 < remaining ∧ 0 < maxSegmentValues then
    let segment := min remaining maxSegmentValues
    accumulateSegments maxSegmentValues (countSegment segment entries) (remaining - segment)
  else entries
termination_by remaining
decreasing_by omega

/-- `accumulate_run_length_entries`: a run counted in segments of at most
`max_segment_values`, the whole run when there is no such bound. -/
def accumulateRunLengthEntries (runLength : Nat) (maxSegmentValues : Option UInt64) (entries : List UInt64) :
    List UInt64 :=
  accumulateSegments (max ((maxSegmentValues.map UInt64.toNat).getD runLength) 1) entries runLength

def collectRunLengthEntriesFromSlice (values : List (List UInt8)) (maxSegmentValues : Option UInt64) : List UInt64 :=
  if values.isEmpty then [0, 0, 0]
  else scanRuns (fun entries _ length => accumulateRunLengthEntries length maxSegmentValues entries) [0, 0, 0] values

/-- `collect_run_length_entries`. Besides the checks the encoder makes, it
checks that there are `num_values` values to take. -/
def collectRunLengthEntries (data : List UInt8) (numValues bitsPerValue : UInt64) (maxSegmentValues : Option UInt64) :
    Except String (List UInt64) :=
  match RleDecompressor.valueType bitsPerValue with
  | some (typeSize, _) => do
    let values ← typedValues data numValues.toNat typeSize
    if values.length < numValues.toNat then
      throw ("RLE data has " ++ toString values.length ++ " values but " ++ toString numValues ++ " were expected")
    else pure (collectRunLengthEntriesFromSlice (values.take numValues.toNat) maxSegmentValues)
  | none => throw (bitsPerValueError bitsPerValue)

def selectRunLengthWidth (data : List UInt8) (numValues bitsPerValue : UInt64) (maxSegmentValues : Option UInt64) :
    Except String (RunLengthWidth × Nat) := do
  let entries ← collectRunLengthEntries data numValues bitsPerValue maxSegmentValues
  selectRunLengthWidthFromEntries entries bitsPerValue

def rleEncodedSize (data : List UInt8) (numValues bitsPerValue : UInt64) (maxSegmentValues : Option UInt64)
    (runLengthWidth : RunLengthWidth) : Except String Nat := do
  let entries ← collectRunLengthEntries data numValues bitsPerValue maxSegmentValues
  pure (rleEncodedSizeFromEntries (entries.getD (runLengthWidthIndex runLengthWidth) 0) bitsPerValue runLengthWidth)

/-! ### What the encoder writes -/

namespace RunLengthWidth

theorem maxRunLength_pos (width : RunLengthWidth) : 0 < width.maxRunLength := by
  cases width <;> decide

theorem maxRunLength_lt (width : RunLengthWidth) : width.maxRunLength < 256 ^ width.bytesPerValue := by
  cases width <;> decide

@[simp] theorem length_writeLength (width : RunLengthWidth) (length : Nat) :
    (width.writeLength length).length = width.bytesPerValue := by
  simp [writeLength]

theorem readLength_writeLength {width : RunLengthWidth} {length : Nat} (fits : length ≤ width.maxRunLength) :
    width.readLength (width.writeLength length) = some length := by
  have small : length < 256 ^ width.bytesPerValue := Nat.lt_of_le_of_lt fits width.maxRunLength_lt
  have whole : (toLeBytes width.bytesPerValue length).take width.bytesPerValue = toLeBytes width.bytesPerValue length :=
    List.take_of_length_le (by simp)
  simp [readLength, readLe, writeLength, whole, fromLeBytes_toLeBytes _ _ small]

end RunLengthWidth

namespace RleEncoder

variable (encoder : RleEncoder)

/-- The entries the encoder writes: each run of the values cut into pieces the
length field holds. -/
def entries (values : List (List UInt8)) : List (List UInt8 × Nat) :=
  (runs values).flatMap fun run => (pieces encoder.runLengthWidth.maxRunLength run.2).map fun length => (run.1, length)

def writtenValues (values : List (List UInt8)) : List UInt8 := (encoder.entries values).flatMap Prod.fst

def writtenLengths (values : List (List UInt8)) : List UInt8 :=
  (encoder.entries values).flatMap fun entry => encoder.runLengthWidth.writeLength entry.2

theorem foldl_range_push (value lengthBytes : List UInt8) : ∀ (count : Nat) (buffers : List UInt8 × List UInt8),
    (List.range count).foldl (fun buffers _ => (buffers.1 ++ value, buffers.2 ++ lengthBytes)) buffers =
      (buffers.1 ++ (List.replicate count value).flatten, buffers.2 ++ (List.replicate count lengthBytes).flatten)
  | 0, buffers => by simp
  | count + 1, buffers => by
    rw [List.range_succ, List.foldl_append, foldl_range_push value lengthBytes count buffers]
    simp [List.replicate_succ', List.flatten_append]

theorem addRun_eq (buffers : List UInt8 × List UInt8) (value : List UInt8) (length : Nat) :
    encoder.addRun buffers value length =
      (buffers.1 ++ (pieces encoder.runLengthWidth.maxRunLength length).flatMap (fun _ => value),
        buffers.2 ++ (pieces encoder.runLengthWidth.maxRunLength length).flatMap encoder.runLengthWidth.writeLength) := by
  simp only [addRun, pieces]
  rw [foldl_range_push]
  split <;> simp [List.flatMap_append, List.flatMap_replicate]

/-- The scan of `encode_values` writes the entries of the runs, values and
lengths side by side. -/
theorem emitRuns_addRun : ∀ (scanned : List (List UInt8 × Nat)) (buffers : List UInt8 × List UInt8),
    emitRuns encoder.addRun buffers scanned =
      (buffers.1 ++ (scanned.flatMap fun run =>
          (pieces encoder.runLengthWidth.maxRunLength run.2).map fun length => (run.1, length)).flatMap Prod.fst,
        buffers.2 ++ (scanned.flatMap fun run =>
          (pieces encoder.runLengthWidth.maxRunLength run.2).map fun length => (run.1, length)).flatMap
            fun entry => encoder.runLengthWidth.writeLength entry.2)
  | [], buffers => by simp [emitRuns]
  | run :: rest, buffers => by
    rw [show run :: rest = [run] ++ rest from rfl, emitRuns_append, emitRuns_addRun rest]
    simp [emitRuns, addRun_eq, List.flatMap_append, List.flatMap_map]

theorem encodeValues_eq (values : List (List UInt8)) :
    encoder.encodeValues values ([], []) = (encoder.writtenValues values, encoder.writtenLengths values) := by
  rw [encodeValues, scanRuns_eq, emitRuns_addRun]
  rfl

theorem expand_entries (values : List (List UInt8)) : expand (encoder.entries values) = values := by
  have pieceRun : ∀ run : List UInt8 × Nat,
      expand ((pieces encoder.runLengthWidth.maxRunLength run.2).map fun length => (run.1, length)) =
        List.replicate run.2 run.1 := fun run => by
    rw [expand_map_pair, sum_pieces]
  conv => rhs; rw [← expand_runs values]
  simp only [entries, expand, List.flatMap_assoc]
  exact List.flatMap_congr fun run _ => pieceRun run

theorem mem_entries {values : List (List UInt8)} {entry : List UInt8 × Nat} (member : entry ∈ encoder.entries values) :
    entry.1 ∈ values ∧ 0 < entry.2 ∧ entry.2 ≤ encoder.runLengthWidth.maxRunLength := by
  obtain ⟨run, inRuns, inPieces⟩ := List.mem_flatMap.mp member
  obtain ⟨length, piece, rfl⟩ := List.mem_map.mp inPieces
  have present : run.1 ∈ values := by
    have := pos_of_mem_runs inRuns
    rw [← expand_runs values, expand, List.mem_flatMap]
    exact ⟨run, inRuns, List.mem_replicate.mpr ⟨by omega, rfl⟩⟩
  exact ⟨present, mem_pieces encoder.runLengthWidth.maxRunLength_pos piece⟩

theorem sum_entries (values : List (List UInt8)) : ((encoder.entries values).map Prod.snd).sum = values.length := by
  rw [← length_expand, expand_entries]

theorem length_entries_le (values : List (List UInt8)) : (encoder.entries values).length ≤ values.length :=
  sum_entries encoder values ▸ length_le_sum_of_pos fun _ member => (encoder.mem_entries member).2.1

theorem typedValues_flatten {values : List (List UInt8)} {typeSize : Nat} (positive : 0 < typeSize)
    (sized : ∀ value ∈ values, value.length = typeSize) (fits : values.flatten.length < 2 ^ 64) :
    typedValues values.flatten values.length typeSize = .ok values := by
  have whole := length_flatten_of_sized sized
  rw [typedValues, if_neg (by omega), if_neg (by omega), chunksExact_flatten positive sized]
  rfl

/-- On values of the width's size, the block encoder writes the entries of
the runs: their values, then their lengths. -/
theorem encodeBlockData_eq {bitsPerValue : UInt64} {typeSize : Nat} {typeName : String}
    (typed : RleDecompressor.valueType bitsPerValue = some (typeSize, typeName)) {values : List (List UInt8)}
    (sized : ∀ value ∈ values, value.length = typeSize) {numValues : UInt64} (counted : values.length = numValues.toNat)
    (fits : values.flatten.length < 2 ^ 64) :
    encoder.encodeBlockData values.flatten numValues bitsPerValue =
      .ok (encoder.writtenValues values, encoder.writtenLengths values) := by
  have positive := (RleDecompressor.valueType_size typed).1
  simp only [encodeBlockData, typed, encodeBlockDataGeneric, ← counted, typedValues_flatten positive sized fits]
  split
  · -- no values: no runs, so nothing written
    rename_i zero
    have empty : values = [] := List.eq_nil_of_length_eq_zero (by rw [counted, zero]; rfl)
    subst empty
    rfl
  · exact congrArg Except.ok (encoder.encodeValues_eq values)

end RleEncoder

/-! ### Reading the entries back -/

namespace RleDecompressor

/-- The decoder's loop over the entries the encoder writes reads each back as
its run, none too long while the runs add up to the count. -/
theorem decodeRuns_entries (width : RunLengthWidth) (expectedValueCount : Nat) (clampOverflow : Bool) :
    ∀ (written : List (List UInt8 × Nat)) (decoded : List (List UInt8)),
      (∀ entry ∈ written, 0 < entry.2 ∧ entry.2 ≤ width.maxRunLength) →
      decoded.length + (written.map Prod.snd).sum = expectedValueCount →
      decodeRuns width expectedValueCount clampOverflow
          (written.map fun entry => (entry.1, width.writeLength entry.2)) decoded =
        pure (decoded ++ expand written)
  | [], decoded, _, _ => by simp [decodeRuns]
  | (value, length) :: rest, decoded, fit, total => by
    obtain ⟨positive, fits⟩ : 0 < length ∧ length ≤ width.maxRunLength := fit _ List.mem_cons_self
    simp only [List.map_cons, List.sum_cons] at total
    have room : decoded.length ≤ expectedValueCount := by omega
    have within : ¬ length > expectedValueCount - decoded.length := by omega
    have later := decodeRuns_entries width expectedValueCount clampOverflow rest (decoded ++ List.replicate length value)
      (fun entry member => fit entry (List.mem_cons_of_mem _ member)) (by simp; omega)
    simp only [List.map_cons, decodeRuns, RunLengthWidth.readLength_writeLength fits, debugSub_of_le room,
      Nat.ne_of_gt positive, within, if_false, liftM_some, pure_bind, later, expand_cons, List.append_assoc]

section Written

variable {width : RunLengthWidth} {bitsPerValue : UInt64} {typeSize : Nat} {typeName : String}
  {values : List (List UInt8)} {numValues : UInt64}

/-- The two buffers the encoder writes, read back by the decoder as the values
the encoder ran through, once their count can be reserved. -/
theorem decodeGeneric_written (typed : valueType bitsPerValue = some (typeSize, typeName)) (allocates : Nat → Bool)
    (sized : ∀ value ∈ values, value.length = typeSize) (nonempty : values ≠ [])
    (counted : values.length = numValues.toNat) (fits : values.flatten.length < 2 ^ 63)
    (granted : allocates values.flatten.length = true) (clampOverflow : Bool) :
    (withRunLengthWidth bitsPerValue width).decodeGeneric allocates typeSize typeName
        ((RleEncoder.withRunLengthWidth width).writtenValues values)
        ((RleEncoder.withRunLengthWidth width).writtenLengths values) numValues clampOverflow = pure values.flatten := by
  set encoder := RleEncoder.withRunLengthWidth width
  set written := encoder.entries values
  have positive := (valueType_size typed).1
  have fit : ∀ entry ∈ written, 0 < entry.2 ∧ entry.2 ≤ width.maxRunLength :=
    fun entry member => (encoder.mem_entries member).2
  have valueSized : ∀ piece ∈ written.map Prod.fst, piece.length = typeSize := by
    intro piece member
    obtain ⟨entry, inEntries, rfl⟩ := List.mem_map.mp member
    exact sized _ (encoder.mem_entries inEntries).1
  have lengthSized : ∀ piece ∈ written.map (fun entry => width.writeLength entry.2),
      piece.length = width.bytesPerValue := by
    intro piece member
    obtain ⟨entry, _, rfl⟩ := List.mem_map.mp member
    exact width.length_writeLength _
  have valuesEq : encoder.writtenValues values = (written.map Prod.fst).flatten := List.flatMap_def
  have lengthsEq : encoder.writtenLengths values = (written.map fun entry => width.writeLength entry.2).flatten :=
    List.flatMap_def
  have valuesLength := length_flatten_of_sized valueSized
  have lengthsLength := length_flatten_of_sized lengthSized
  rw [List.length_map] at valuesLength lengthsLength
  have someRuns : 0 < written.length := List.length_pos_iff.mpr fun empty => by
    apply nonempty
    apply List.eq_nil_of_length_eq_zero
    rw [← encoder.sum_entries values]
    show (written.map Prod.snd).sum = 0
    rw [empty]
    rfl
  have total : numValues.toNat * typeSize = values.flatten.length := by rw [length_flatten_of_sized sized, counted]
  have reserved : tryReserveExact allocates typeSize numValues.toNat = true := by
    rw [tryReserveExact, total]
    simp only [fits, granted, decide_true, Bool.and_self]
  have filled : [] ++ expand written = values := encoder.expand_entries values
  have decoded := decodeRuns_entries width numValues.toNat clampOverflow written [] fit
    (by rw [List.length_nil, Nat.zero_add, encoder.sum_entries values, counted])
  rw [filled] at decoded
  have lengthSize := width.bytesPerValue_pos
  have buffersNonempty : ((written.map Prod.fst).flatten.isEmpty ||
      (written.map fun entry => width.writeLength entry.2).flatten.isEmpty) = false := by
    simp only [Bool.or_eq_false_iff, List.isEmpty_eq_false_iff, ne_eq, ← List.length_eq_zero_iff, valuesLength,
      lengthsLength, Nat.mul_eq_zero, not_or]
    omega
  unfold decodeGeneric
  simp only [withRunLengthWidth]
  rw [valuesEq, lengthsEq, chunksExact_flatten positive valueSized, chunksExact_flatten lengthSize lengthSized,
    List.zip_map']
  simp only [buffersNonempty, valuesLength, lengthsLength, Nat.mul_mod_left, Nat.mul_div_cancel _ positive,
    Nat.mul_div_cancel _ lengthSize, reserved, decoded]
  simp [counted]

/-- Both children of the decoder built for a run-length width take their
buffers as they are. -/
theorem decodeData_withRunLengthWidth (typed : valueType bitsPerValue = some (typeSize, typeName))
    (allocates : Nat → Bool) (valuesBuffer lengthsBuffer : List UInt8) (nonzero : numValues ≠ 0)
    (clampOverflow : Bool) :
    (withRunLengthWidth bitsPerValue width).decodeData allocates [valuesBuffer, lengthsBuffer] numValues clampOverflow =
      (do
        let decodedData ← (withRunLengthWidth bitsPerValue width).decodeGeneric allocates typeSize typeName
          valuesBuffer lengthsBuffer numValues clampOverflow
        pure (.fixedWidth ⟨bitsPerValue, decodedData, numValues⟩)) := by
  unfold decodeData
  rw [if_neg nonzero]
  simp only [decodeChildBuffers, withRunLengthWidth, RleChildDecompressor.flat, RleChildDecompressor.requiresNumValues,
    RleChildDecompressor.decode, typed]
  rfl

end Written

theorem blockDecompress_header (decompressor : RleDecompressor) (allocates : Nat → Bool)
    (valuesBuffer lengthsBuffer : List UInt8) (numValues : UInt64) (fits : 8 + valuesBuffer.length < 2 ^ 64) :
    decompressor.blockDecompress allocates (toLeBytes 8 valuesBuffer.length ++ valuesBuffer ++ lengthsBuffer)
        numValues =
      decompressor.decodeData allocates [valuesBuffer, lengthsBuffer] numValues false := by
  have headerLength := length_toLeBytes 8 valuesBuffer.length
  have header : (toLeBytes 8 valuesBuffer.length ++ valuesBuffer ++ lengthsBuffer).take 8 =
      toLeBytes 8 valuesBuffer.length := by
    rw [List.append_assoc, List.take_left' headerLength]
  have size : fromLeBytes (toLeBytes 8 valuesBuffer.length) = valuesBuffer.length :=
    fromLeBytes_toLeBytes 8 _ (by omega)
  have body : (toLeBytes 8 valuesBuffer.length ++ valuesBuffer ++ lengthsBuffer).drop 8 = valuesBuffer ++ lengthsBuffer := by
    rw [List.append_assoc, List.drop_left' headerLength]
  have lengths : (toLeBytes 8 valuesBuffer.length ++ valuesBuffer ++ lengthsBuffer).drop (8 + valuesBuffer.length) =
      lengthsBuffer := List.drop_left' (by simp)
  unfold blockDecompress
  simp only [List.length_append, headerLength, header, size, body, lengths, List.take_left' rfl]
  rw [if_neg (by omega), if_neg (by omega), if_neg (by omega)]

end RleDecompressor

/-- The block encoder's output is read back by the block decoder as the values
it was given, whichever width the run lengths take: each run is written as its
value and its length, a run longer than the width holds cut into full pieces
and what remains, every length written between one and the width's maximum. -/
theorem blockDecompress_blockCompress (width : RunLengthWidth) {bitsPerValue : UInt64} {typeSize : Nat}
    {typeName : String} (typed : RleDecompressor.valueType bitsPerValue = some (typeSize, typeName))
    {values : List (List UInt8)} (sized : ∀ value ∈ values, value.length = typeSize) {numValues : UInt64}
    (counted : values.length = numValues.toNat) (fits : values.flatten.length < 2 ^ 63) (allocates : Nat → Bool)
    (granted : allocates values.flatten.length = true) :
    ∃ compressed,
      (RleEncoder.withRunLengthWidth width).blockCompress (.fixedWidth ⟨bitsPerValue, values.flatten, numValues⟩) =
        .ok compressed ∧
      (RleDecompressor.withRunLengthWidth bitsPerValue width).blockDecompress allocates compressed numValues =
        pure (.fixedWidth ⟨bitsPerValue, values.flatten, numValues⟩) ∧
      ∃ allValues lengths, compressed = toLeBytes 8 allValues.length ++ allValues ++ lengths.flatMap width.writeLength ∧
        lengths = (runs values).flatMap (fun run => pieces width.maxRunLength run.2) ∧
        ∀ length ∈ lengths, 0 < length ∧ length ≤ width.maxRunLength := by
  set encoder := RleEncoder.withRunLengthWidth width
  have positive := (RleDecompressor.valueType_size typed).1
  have encoded := encoder.encodeBlockData_eq typed sized counted (by omega)
  have valueSized : ∀ piece ∈ (encoder.entries values).map Prod.fst, piece.length = typeSize := by
    intro piece member
    obtain ⟨entry, inEntries, rfl⟩ := List.mem_map.mp member
    exact sized _ (encoder.mem_entries inEntries).1
  have valuesShort : (encoder.writtenValues values).length ≤ values.flatten.length := by
    rw [RleEncoder.writtenValues, List.flatMap_def, length_flatten_of_sized valueSized, List.length_map,
      length_flatten_of_sized sized]
    exact Nat.mul_le_mul_right _ (encoder.length_entries_le values)
  refine ⟨toLeBytes 8 (encoder.writtenValues values).length ++ encoder.writtenValues values ++
    encoder.writtenLengths values, by simp [RleEncoder.blockCompress, encoded], ?_,
    encoder.writtenValues values, (encoder.entries values).map Prod.snd, ?_, ?_, ?_⟩
  · rw [RleDecompressor.blockDecompress_header _ _ _ _ _ (by omega)]
    by_cases zero : numValues = 0
    · -- no values: the decoder returns the empty block at once
      have empty : values = [] := List.eq_nil_of_length_eq_zero (by rw [counted, zero]; rfl)
      subst empty zero
      rfl
    · have nonempty : values ≠ [] := fun empty => zero (by
        rw [empty, List.length_nil] at counted
        exact UInt64.toNat_inj.mp counted.symm)
      rw [RleDecompressor.decodeData_withRunLengthWidth typed allocates _ _ zero,
        RleDecompressor.decodeGeneric_written typed allocates sized nonempty counted fits granted]
      rfl
  · simp only [RleEncoder.writtenLengths, List.flatMap_map]
    rfl
  · simp only [RleEncoder.entries, List.map_flatMap, List.map_map, Function.comp_def, List.map_id']
    rfl
  · intro length member
    obtain ⟨entry, inEntries, rfl⟩ := List.mem_map.mp member
    exact (encoder.mem_entries inEntries).2

/-- Three bytes in two runs, with one-byte run lengths. -/
theorem blockDecompress_blockCompress_at_twoRuns :
    RleDecompressor.valueType 8 = some (1, "u8") ∧ (∀ value ∈ [[5], [5], [7]], value.length = 1) ∧
      [[5], [5], [7]].length = (3 : UInt64).toNat ∧ ([[5], [5], [7]] : List (List UInt8)).flatten.length < 2 ^ 63 ∧
    ∃ compressed,
      (RleEncoder.withRunLengthWidth .u8).blockCompress (.fixedWidth ⟨8, [5, 5, 7], 3⟩) = .ok compressed ∧
      (RleDecompressor.withRunLengthWidth 8 .u8).blockDecompress (fun _ => true) compressed 3 =
        pure (.fixedWidth ⟨8, [5, 5, 7], 3⟩) ∧
      ∃ allValues lengths, compressed = toLeBytes 8 allValues.length ++ allValues ++
          lengths.flatMap RunLengthWidth.u8.writeLength ∧
        lengths = (runs ([[5], [5], [7]] : List (List UInt8))).flatMap
          (fun run => pieces RunLengthWidth.u8.maxRunLength run.2) ∧
        ∀ length ∈ lengths, 0 < length ∧ length ≤ RunLengthWidth.u8.maxRunLength :=
  ⟨rfl, by decide, rfl, by decide,
    @blockDecompress_blockCompress .u8 8 1 "u8" rfl [[5], [5], [7]] (by decide) 3 rfl (by decide) (fun _ => true) rfl⟩

/-! ### The estimate is the size the encoder writes -/

section Estimate

theorem RleEncoder.length_entries (encoder : RleEncoder) (values : List (List UInt8)) :
    (encoder.entries values).length =
      ((runs values).map fun run => divCeil run.2 encoder.runLengthWidth.maxRunLength).sum := by
  simp [RleEncoder.entries, List.length_flatMap, length_pieces]

theorem countSegment_ofNat (segment : Nat) (counts : RunLengthWidth → Nat)
    (fit : ∀ width, counts width + divCeil segment width.maxRunLength < 2 ^ 64) :
    countSegment segment (runLengthWidths.map fun width => UInt64.ofNat (counts width)) =
      runLengthWidths.map fun width => UInt64.ofNat (counts width + divCeil segment width.maxRunLength) := by
  simp [countSegment, runLengthWidths, saturatingAdd_ofNat (fit _)]

theorem accumulateRunLengthEntries_none {runLength : Nat} (positive : 0 < runLength) (entries : List UInt64) :
    accumulateRunLengthEntries runLength none entries = countSegment runLength entries := by
  unfold accumulateRunLengthEntries
  simp only [Option.map_none, Option.getD_none, Nat.max_eq_left positive]
  rw [accumulateSegments, dif_pos ⟨positive, positive⟩]
  simp only [Nat.min_self, Nat.sub_self]
  rw [accumulateSegments, dif_neg (by simp)]

/-- The run lemma of the count: over runs of at least one value, each width
counts the entries the encoder would write for them. -/
theorem emitRuns_accumulate : ∀ (scanned : List (List UInt8 × Nat)) (counts : RunLengthWidth → Nat),
    (∀ run ∈ scanned, 0 < run.2) → (∀ width, counts width + (scanned.map Prod.snd).sum < 2 ^ 64) →
    emitRuns (fun entries _ length => accumulateRunLengthEntries length none entries)
        (runLengthWidths.map fun width => UInt64.ofNat (counts width)) scanned =
      runLengthWidths.map fun width =>
        UInt64.ofNat (counts width + (scanned.map fun run => divCeil run.2 width.maxRunLength).sum)
  | [], counts, _, _ => by simp [emitRuns]
  | run :: rest, counts, positive, fit => by
    have here := positive run List.mem_cons_self
    have shorter : ∀ width : RunLengthWidth, divCeil run.2 width.maxRunLength ≤ run.2 :=
      fun width => divCeil_le width.maxRunLength_pos
    have step := countSegment_ofNat run.2 counts fun width => by
      have := fit width
      have := shorter width
      simp only [List.map_cons, List.sum_cons] at *
      omega
    have later := emitRuns_accumulate rest (fun width => counts width + divCeil run.2 width.maxRunLength)
      (fun other member => positive other (List.mem_cons_of_mem _ member)) fun width => by
        have := fit width
        have := shorter width
        simp only [List.map_cons, List.sum_cons] at *
        omega
    simp only [emitRuns, List.foldl_cons, accumulateRunLengthEntries_none here] at later ⊢
    rw [step, later]
    simp [Nat.add_assoc]

variable {bitsPerValue : UInt64} {typeSize : Nat} {typeName : String} {values : List (List UInt8)}
  {numValues : UInt64}

/-- For each width, the count of entries is the number the encoder writes. -/
theorem collectRunLengthEntries_eq (typed : RleDecompressor.valueType bitsPerValue = some (typeSize, typeName))
    (sized : ∀ value ∈ values, value.length = typeSize) (counted : values.length = numValues.toNat)
    (fits : values.flatten.length < 2 ^ 64) :
    collectRunLengthEntries values.flatten numValues bitsPerValue none =
      .ok (runLengthWidths.map fun width => UInt64.ofNat ((RleEncoder.withRunLengthWidth width).entries values).length) := by
  have positive := (RleDecompressor.valueType_size typed).1
  have short : values.length < 2 ^ 64 := by
    have := length_flatten_of_sized sized
    have : values.length ≤ values.length * typeSize := Nat.le_mul_of_pos_right _ positive
    omega
  simp only [collectRunLengthEntries, typed, ← counted, RleEncoder.typedValues_flatten positive sized fits, bind,
    Except.bind, Nat.lt_irrefl, if_false, List.take_length]
  congr 1
  unfold collectRunLengthEntriesFromSlice
  split
  · rename_i empty
    rw [List.isEmpty_iff.mp empty]
    rfl
  · have start : ([0, 0, 0] : List UInt64) = runLengthWidths.map fun _ => UInt64.ofNat 0 := rfl
    rw [start, scanRuns_eq, emitRuns_accumulate _ _ (fun _ member => pos_of_mem_runs member)
      (fun _ => by rw [sum_runs]; omega)]
    simp [RleEncoder.length_entries, RleEncoder.withRunLengthWidth]

theorem RleEncoder.length_written (encoder : RleEncoder) (sized : ∀ value ∈ values, value.length = typeSize) :
    (encoder.writtenValues values).length + (encoder.writtenLengths values).length =
      (encoder.entries values).length * (typeSize + encoder.runLengthWidth.bytesPerValue) := by
  have valueSized : ∀ piece ∈ (encoder.entries values).map Prod.fst, piece.length = typeSize := by
    intro piece member
    obtain ⟨entry, inEntries, rfl⟩ := List.mem_map.mp member
    exact sized _ (encoder.mem_entries inEntries).1
  have lengthSized : ∀ piece ∈ (encoder.entries values).map (fun entry => encoder.runLengthWidth.writeLength entry.2),
      piece.length = encoder.runLengthWidth.bytesPerValue := by
    intro piece member
    obtain ⟨entry, _, rfl⟩ := List.mem_map.mp member
    exact RunLengthWidth.length_writeLength _ _
  rw [RleEncoder.writtenValues, RleEncoder.writtenLengths, List.flatMap_def, List.flatMap_def,
    length_flatten_of_sized valueSized, length_flatten_of_sized lengthSized, List.length_map, List.length_map,
    Nat.mul_add]

/-- The selection keeps the first width of least cost. -/
theorem selectRunLengthWidthFromEntries_least (e0 e1 e2 : UInt64) (valid : bitsPerValue ∈ [8, 16, 32, 64]) :
    let cost := fun width => rleEncodedSizeFromEntries ([e0, e1, e2].getD (runLengthWidthIndex width) 0)
      bitsPerValue width
    ∃ best, selectRunLengthWidthFromEntries [e0, e1, e2] bitsPerValue = .ok (best, cost best) ∧
      ∀ width, cost best ≤ cost width ∧ (runLengthWidthIndex width < runLengthWidthIndex best → cost best < cost width) := by
  intro cost
  have c0 : rleEncodedSizeFromEntries e0 bitsPerValue .u8 = cost .u8 := rfl
  have c1 : rleEncodedSizeFromEntries e1 bitsPerValue .u16 = cost .u16 := rfl
  have c2 : rleEncodedSizeFromEntries e2 bitsPerValue .u32 = cost .u32 := rfl
  simp only [selectRunLengthWidthFromEntries, runLengthWidths, List.length_cons, List.length_nil, ne_eq,
    not_true_eq_false, if_false, valid, not_true_eq_false, List.zip_cons_cons, List.zip_nil_right, List.drop_one,
    List.tail_cons, List.foldl_cons, List.foldl_nil, List.getD_cons_zero, c0, c1, c2]
  -- a later width replaces the best so far only when strictly cheaper
  by_cases wider : cost .u16 < cost .u8 <;> by_cases widest : cost .u32 < (if cost .u16 < cost .u8 then cost .u16 else cost .u8)
  all_goals simp only [wider, if_true, if_false] at widest ⊢
  all_goals simp only [widest, if_true, if_false]
  · refine ⟨.u32, rfl, fun width => ?_⟩
    cases width <;> simp only [runLengthWidthIndex] <;> omega
  · refine ⟨.u16, rfl, fun width => ?_⟩
    cases width <;> simp only [runLengthWidthIndex] <;> omega
  · refine ⟨.u32, rfl, fun width => ?_⟩
    cases width <;> simp only [runLengthWidthIndex] <;> omega
  · refine ⟨.u8, rfl, fun width => ?_⟩
    cases width <;> simp only [runLengthWidthIndex] <;> omega

theorem rleEncodedSize_written (typed : RleDecompressor.valueType bitsPerValue = some (typeSize, typeName))
    (sized : ∀ value ∈ values, value.length = typeSize) (counted : values.length = numValues.toNat)
    (fits : values.flatten.length < 2 ^ 64) (width : RunLengthWidth) :
    rleEncodedSize values.flatten numValues bitsPerValue none width =
      .ok (((RleEncoder.withRunLengthWidth width).writtenValues values).length +
        ((RleEncoder.withRunLengthWidth width).writtenLengths values).length) := by
  obtain ⟨positive, size⟩ := RleDecompressor.valueType_size typed
  have short : ((RleEncoder.withRunLengthWidth width).entries values).length < 2 ^ 64 := by
    have := (RleEncoder.withRunLengthWidth width).length_entries_le values
    have := length_flatten_of_sized sized
    have : values.length ≤ values.length * typeSize := Nat.le_mul_of_pos_right _ positive
    omega
  rw [RleEncoder.length_written _ sized, size]
  simp only [rleEncodedSize, collectRunLengthEntries_eq typed sized counted fits, bind, Except.bind, pure,
    Except.pure, rleEncodedSizeFromEntries]
  cases width <;> simp only [runLengthWidths, runLengthWidthIndex, List.map_cons, List.map_nil, List.getD_cons_zero,
    List.getD_cons_succ, UInt64.toNat_ofNat_of_lt' short] <;> rfl

theorem rleEncodedSize_eq_blockEncoded (typed : RleDecompressor.valueType bitsPerValue = some (typeSize, typeName))
    (sized : ∀ value ∈ values, value.length = typeSize) (counted : values.length = numValues.toNat)
    (fits : values.flatten.length < 2 ^ 64) :
    (∀ width, ∃ allValues allLengths,
      (RleEncoder.withRunLengthWidth width).encodeBlockData values.flatten numValues bitsPerValue =
        .ok (allValues, allLengths) ∧
      rleEncodedSize values.flatten numValues bitsPerValue none width = .ok (allValues.length + allLengths.length)) ∧
    ∃ best cost, selectRunLengthWidth values.flatten numValues bitsPerValue none = .ok (best, cost) ∧
      ∀ width allValues allLengths,
        (RleEncoder.withRunLengthWidth width).encodeBlockData values.flatten numValues bitsPerValue =
          .ok (allValues, allLengths) →
        (width = best → allValues.length + allLengths.length = cost) ∧ cost ≤ allValues.length + allLengths.length ∧
        (runLengthWidthIndex width < runLengthWidthIndex best → cost < allValues.length + allLengths.length) := by
  have encoded := fun width => (RleEncoder.withRunLengthWidth width).encodeBlockData_eq typed sized counted fits
  have estimated := rleEncodedSize_written typed sized counted fits
  refine ⟨fun width => ⟨_, _, encoded width, estimated width⟩, ?_⟩
  have valid : bitsPerValue ∈ [8, 16, 32, 64] := by
    unfold RleDecompressor.valueType at typed
    split_ifs at typed <;> simp_all
  set count := fun width => UInt64.ofNat ((RleEncoder.withRunLengthWidth width).entries values).length
  obtain ⟨best, selected, least⟩ := selectRunLengthWidthFromEntries_least (count .u8) (count .u16) (count .u32) valid
  have costOf : ∀ width, rleEncodedSize values.flatten numValues bitsPerValue none width =
      .ok (rleEncodedSizeFromEntries ([count .u8, count .u16, count .u32].getD (runLengthWidthIndex width) 0)
        bitsPerValue width) := by
    intro width
    simp only [rleEncodedSize, collectRunLengthEntries_eq typed sized counted fits, bind, Except.bind]
    rfl
  refine ⟨best, rleEncodedSizeFromEntries ([count .u8, count .u16, count .u32].getD (runLengthWidthIndex best) 0)
    bitsPerValue best, ?_, fun width allValues allLengths written => ?_⟩
  · simp only [selectRunLengthWidth, collectRunLengthEntries_eq typed sized counted fits, bind, Except.bind]
    exact selected
  · rw [encoded width, Except.ok.injEq, Prod.mk.injEq] at written
    obtain ⟨rfl, rfl⟩ := written
    have same : _ = rleEncodedSizeFromEntries _ bitsPerValue width :=
      Except.ok.inj ((estimated width).symm.trans (costOf width))
    rw [same]
    exact ⟨fun chosen => chosen ▸ rfl, (least width).1, (least width).2⟩

/-- Three values in two runs, as bytes. -/
theorem rleEncodedSize_eq_blockEncoded_at_twoRuns :
    RleDecompressor.valueType 8 = some (1, "u8") ∧ (∀ value ∈ [[5], [5], [7]], value.length = 1) ∧
      [[5], [5], [7]].length = (3 : UInt64).toNat ∧ ([[5], [5], [7]] : List (List UInt8)).flatten.length < 2 ^ 64 ∧
    ((∀ width, ∃ allValues allLengths,
      (RleEncoder.withRunLengthWidth width).encodeBlockData [5, 5, 7] 3 8 = .ok (allValues, allLengths) ∧
      rleEncodedSize [5, 5, 7] 3 8 none width = .ok (allValues.length + allLengths.length)) ∧
    ∃ best cost, selectRunLengthWidth [5, 5, 7] 3 8 none = .ok (best, cost) ∧
      ∀ width allValues allLengths,
        (RleEncoder.withRunLengthWidth width).encodeBlockData [5, 5, 7] 3 8 = .ok (allValues, allLengths) →
        (width = best → allValues.length + allLengths.length = cost) ∧ cost ≤ allValues.length + allLengths.length ∧
        (runLengthWidthIndex width < runLengthWidthIndex best → cost < allValues.length + allLengths.length)) :=
  ⟨rfl, by decide, rfl, by decide,
    @rleEncodedSize_eq_blockEncoded 8 1 "u8" [[5], [5], [7]] 3 rfl (by decide) rfl (by decide)⟩

end Estimate

end Lance.Encoding
