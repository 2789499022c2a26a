import Lance.Encoding.RleEncode
import Mathlib.Algebra.BigOperators.Ring.List
import Mathlib.Algebra.Ring.Nat

/-! The mini-block path of the run-length encoder (`encode_data`). The values
are cut into chunks: all the values that remain when they fit in a chunk's
budgets of values and bytes, else the largest power of two of values whose runs
fit. Each chunk's runs are written after the previous chunk's into two buffers
for the whole page, and the chunk records its share of each buffer and the log
of its count of values, 0 for the last one, whose count a reader takes from the
page's count. -/

namespace Lance.Encoding

open Lance.Library

/-! ### Mini-block chunks -/

def maxMiniblockBytes : Nat := 8 * 1024 - 6

def defaultMaxMiniblockValues : UInt64 := 4096

def maxConfigurableMiniblockValues : UInt64 := 32768

/-- `parse_max_miniblock_values`, from what `LANCE_MINIBLOCK_MAX_VALUES` parses
to when it is set and parses: the value clamped to `1..=32768`. -/
def parseMaxMiniblockValues (setting : Option UInt64) : UInt64 :=
  let val := setting.getD defaultMaxMiniblockValues
  if val < 1 then 1 else if val > maxConfigurableMiniblockValues then maxConfigurableMiniblockValues else val

/-- `MiniBlockChunk`. -/
structure MiniBlockChunk where
  bufferSizes : List UInt32
  logNumValues : UInt8
  deriving DecidableEq, Repr

/-- `MiniBlockChunk::num_values`, in `u64`: the last chunk, logged as 0, holds
what the chunks before it leave of the page. -/
def MiniBlockChunk.numValues (chunk : MiniBlockChunk) (valsInPrevBlocks totalNumValues : UInt64) : UInt64 :=
  if chunk.logNumValues = 0 then totalNumValues - valsInPrevBlocks else 1 <<< chunk.logNumValues.toUInt64

/-- The count of each chunk of a page of `totalNumValues` values, as a reader
takes them in order: `MiniBlockChunk::num_values` with the count of the chunks
before it. -/
def chunkValueCounts (totalNumValues : UInt64) : UInt64 → List MiniBlockChunk → List UInt64
  | _, [] => []
  | valsInPrevBlocks, chunk :: rest =>
    chunk.numValues valsInPrevBlocks totalNumValues ::
      chunkValueCounts totalNumValues (valsInPrevBlocks + chunk.numValues valsInPrevBlocks totalNumValues) rest

/-- `LanceBuffer::borrow_to_typed_slice` for a `T` of `typeSize` bytes, which
panics unless the bytes are whole values. -/
def borrowToTypedSlice (typeSize : Nat) (bytes : List UInt8) : Option (List (List UInt8)) :=
  if bytes.length % typeSize = 0 then some (chunksExact typeSize bytes) else none

namespace RleEncoder

/-- The loop of `largest_power_of_two_prefix` from the prefix `1 << exponent`,
halved while it is more than one. -/
def prefixLoop (encoder : RleEncoder) (typeSize : Nat) (values : List (List UInt8)) : Nat → Option Nat
  | 0 => none
  | exponent + 1 =>
    if encoder.encodedSize typeSize (values.take (1 <<< (exponent + 1))) ≤ maxMiniblockBytes then
      some (1 <<< (exponent + 1))
    else encoder.prefixLoop typeSize values exponent

/-- `largest_power_of_two_prefix::<T>`; the outer `none` is the panic of
`ilog2` on an empty slice. -/
def largestPowerOfTwoPrefix (encoder : RleEncoder) (maxMiniblockValues typeSize : Nat) (values : List (List UInt8)) :
    Option (Option Nat) := do
  let maxPrefix := min values.length maxMiniblockValues
  let exponent ← ilog2 maxPrefix
  pure (encoder.prefixLoop typeSize values exponent)

/-- `encode_chunk_rolling::<T>` for a `T` of `typeSize` bytes: the runs of the
chunk, the values it takes and whether it is the last, with the two buffers
after it is written; `none` is a panic. -/
def encodeChunkRolling (encoder : RleEncoder) (maxMiniblockValues typeSize : Nat) (data : List UInt8)
    (offset valuesRemaining : Nat) (buffers : List UInt8 × List UInt8) :
    Option ((Nat × Nat × Bool) × (List UInt8 × List UInt8)) :=
  let chunkStart := offset * typeSize
  let maxByCount := maxMiniblockValues
  let maxValues := min valuesRemaining maxByCount
  let chunkEnd := chunkStart + maxValues * typeSize
  if chunkStart ≥ data.length then some ((0, 0, false), buffers)
  else do
    let chunkLen := min chunkEnd data.length - chunkStart
    let typedData ← borrowToTypedSlice typeSize ((data.drop chunkStart).take chunkLen)
    let maxValues := min maxValues typedData.length
    if typedData.isEmpty then some ((0, 0, false), buffers)
    else
      let valuesStart := buffers.1.length
      let allRemainingValuesFit := valuesRemaining ≤ maxByCount
      let encodedSize := encoder.encodedSize typeSize (typedData.take maxValues)
      let chosen ←
        if allRemainingValuesFit ∧ encodedSize ≤ maxMiniblockBytes then some (some (maxValues, true))
        else do
          let valuesToEncode ← encoder.largestPowerOfTwoPrefix maxByCount typeSize typedData
          pure (valuesToEncode.map fun valuesToEncode => (valuesToEncode, false))
      match chosen with
      | none => some ((0, 0, false), buffers)
      | some (valuesToEncode, isLastChunk) =>
        let written := encoder.encodeValues (typedData.take valuesToEncode) buffers
        let numRuns := (written.1.length - valuesStart) / typeSize
        some ((numRuns, valuesToEncode, isLastChunk), written)

end RleEncoder

/-- The error of `encode_data` when a chunk takes no values. -/
def noProgressError (valuesRemaining offset dataLen : Nat) (bitsPerValue : UInt64) (maxMiniblockValues : Nat) :
    String :=
  "RLE encoder made no progress: values_remaining=" ++ toString valuesRemaining ++ ", offset=" ++ toString offset ++
    ", data_len=" ++ toString dataLen ++ ", bits_per_value=" ++ toString bitsPerValue ++ ", max_miniblock_values=" ++
    toString maxMiniblockValues

namespace RleEncoder

/-- The loop of `encode_data`: while values remain, a chunk from `offset`,
written after the buffers so far, and its sizes after the chunks so far. A
chunk that takes no values is an error, so the values that remain decrease. -/
def encodeDataLoop (encoder : RleEncoder) (maxMiniblockValues : Nat) (data : List UInt8) (bitsPerValue : UInt64)
    (offset valuesRemaining : Nat) (buffers : List UInt8 × List UInt8) (chunks : List MiniBlockChunk) :
    ExceptT String Option ((List UInt8 × List UInt8) × List MiniBlockChunk) :=
  if _remaining : 0 < valuesRemaining then do
    let valuesStart := buffers.1.length
    let lengthsStart := buffers.2.length
    let ((_numRuns, valuesProcessed, isLastChunk), written) ← match RleDecompressor.valueType bitsPerValue with
      | some (typeSize, _) =>
        liftM (encoder.encodeChunkRolling maxMiniblockValues typeSize data offset valuesRemaining buffers)
      | none => throw (bitsPerValueError bitsPerValue)
    if _processed : valuesProcessed = 0 then
      throw (noProgressError valuesRemaining offset data.length bitsPerValue maxMiniblockValues)
    else do
      -- the assertion that a chunk other than the last holds a power of two
      let logNumValues ← if isLastChunk then pure 0
        else if isPowerOfTwo valuesProcessed then liftM (ilog2 valuesProcessed)
        else liftM (none : Option Nat)
      let chunk : MiniBlockChunk := ⟨[UInt32.ofNat (written.1.length - valuesStart),
        UInt32.ofNat (written.2.length - lengthsStart)], UInt8.ofNat logNumValues⟩
      encoder.encodeDataLoop maxMiniblockValues data bitsPerValue (offset + valuesProcessed)
        (valuesRemaining - valuesProcessed) written (chunks ++ [chunk])
  else pure (buffers, chunks)
termination_by valuesRemaining
decreasing_by omega

/-- `encode_data`, with `MAX_MINIBLOCK_VALUES` as `maxMiniblockValues`: the
page's values buffer and lengths buffer, and its chunks. -/
def encodeData (encoder : RleEncoder) (maxMiniblockValues : Nat) (data : List UInt8) (numValues bitsPerValue : UInt64) :
    ExceptT String Option (List (List UInt8) × List MiniBlockChunk) :=
  if numValues = 0 then pure ([], [])
  else do
    let ((allValues, allLengths), chunks) ←
      encoder.encodeDataLoop maxMiniblockValues data bitsPerValue 0 numValues.toNat ([], []) []
    pure ([allValues, allLengths], chunks)

/-! ### What a chunk takes -/

variable (encoder : RleEncoder) {typeSize : Nat}

theorem encodeValues_append (values : List (List UInt8)) (buffers : List UInt8 × List UInt8) :
    encoder.encodeValues values buffers =
      (buffers.1 ++ encoder.writtenValues values, buffers.2 ++ encoder.writtenLengths values) := by
  rw [encodeValues, scanRuns_eq, emitRuns_addRun]
  rfl

theorem encodedSize_eq (values : List (List UInt8)) :
    encoder.encodedSize typeSize values =
      (encoder.entries values).length * (typeSize + encoder.runLengthWidth.bytesPerValue) := by
  rw [encodedSize, scanRuns_eq, emitRuns_add, RleEncoder.length_entries, Nat.zero_add]
  simp only [runSize]
  rw [List.sum_map_mul_right]

theorem encodedSize_eq_written {values : List (List UInt8)} (sized : ∀ value ∈ values, value.length = typeSize) :
    encoder.encodedSize typeSize values =
      (encoder.writtenValues values).length + (encoder.writtenLengths values).length := by
  rw [encodedSize_eq, encoder.length_written sized]

theorem encodedSize_le_maxMiniblockBytes (narrow : typeSize ≤ 8) {values : List (List UInt8)}
    (few : values.length ≤ 2) : encoder.encodedSize typeSize values ≤ maxMiniblockBytes := by
  have entries := encoder.length_entries_le values
  have lengthSize := encoder.runLengthWidth.bytesPerValue_le
  have perEntry : typeSize + encoder.runLengthWidth.bytesPerValue ≤ 12 := by omega
  calc encoder.encodedSize typeSize values
      = (encoder.entries values).length * (typeSize + encoder.runLengthWidth.bytesPerValue) := encoder.encodedSize_eq values
    _ ≤ 2 * 12 := Nat.mul_le_mul (by omega) perEntry
    _ ≤ maxMiniblockBytes := by decide

/-- The halving loop finds a power of two whose prefix fits, the prefix of two
always fitting. -/
theorem prefixLoop_eq (narrow : typeSize ≤ 8) (values : List (List UInt8)) :
    ∀ exponent, 0 < exponent →
      ∃ found, 0 < found ∧ found ≤ exponent ∧ encoder.prefixLoop typeSize values exponent = some (2 ^ found) ∧
        encoder.encodedSize typeSize (values.take (2 ^ found)) ≤ maxMiniblockBytes
  | 0, zero => absurd zero (Nat.lt_irrefl 0)
  | exponent + 1, _ => by
    by_cases fits : encoder.encodedSize typeSize (values.take (2 ^ (exponent + 1))) ≤ maxMiniblockBytes
    · refine ⟨exponent + 1, by omega, Nat.le_refl _, ?_, fits⟩
      simp only [prefixLoop, Nat.shiftLeft_eq, Nat.one_mul, fits, if_true]
    · cases exponent with
      | zero => exact absurd (encoder.encodedSize_le_maxMiniblockBytes narrow (List.length_take_le _ _)) fits
      | succ exponent =>
        obtain ⟨found, positive, below, loop, foundFits⟩ := prefixLoop_eq narrow values (exponent + 1) (by omega)
        refine ⟨found, positive, by omega, ?_, foundFits⟩
        rw [prefixLoop, Nat.shiftLeft_eq, Nat.one_mul, if_neg fits, loop]

/-- What a chunk takes of the values that remain, `rest`: `count` values
within both budgets, all of them for the last chunk, else a power of two of at
least two values and fewer than remain. -/
structure ChunkChoice (maxMiniblockValues typeSize : Nat) (rest : List (List UInt8)) (count : Nat)
    (isLastChunk : Bool) : Prop where
  positive : 0 < count
  fewValues : count ≤ maxMiniblockValues
  fewBytes : encoder.encodedSize typeSize (rest.take count) ≤ maxMiniblockBytes
  last : isLastChunk = true → count = rest.length
  power : isLastChunk = false → count < rest.length ∧ ∃ exponent, 0 < exponent ∧ count = 2 ^ exponent

/-- Over at least two values, the largest prefix is a power of two, at least
two, within the count budget and the bytes. -/
theorem largestPowerOfTwoPrefix_eq {maxMiniblockValues : Nat} (narrow : typeSize ≤ 8) {values : List (List UInt8)}
    (two : 2 ≤ min values.length maxMiniblockValues) :
    ∃ found, 0 < found ∧ 2 ^ found ≤ min values.length maxMiniblockValues ∧
      encoder.largestPowerOfTwoPrefix maxMiniblockValues typeSize values = some (some (2 ^ found)) ∧
      encoder.encodedSize typeSize (values.take (2 ^ found)) ≤ maxMiniblockBytes := by
  have nonzero : min values.length maxMiniblockValues ≠ 0 := by omega
  have exponent : 0 < (min values.length maxMiniblockValues).log2 := (Nat.le_log2 nonzero).mpr two
  obtain ⟨found, positive, below, loop, fits⟩ := encoder.prefixLoop_eq narrow values _ exponent
  have within : 2 ^ found ≤ min values.length maxMiniblockValues :=
    Nat.le_trans (Nat.pow_le_pow_right (by decide) below) (Nat.log2_self_le nonzero)
  refine ⟨found, positive, within, ?_, fits⟩
  simp only [largestPowerOfTwoPrefix, ilog2, if_neg nonzero, Option.bind_eq_bind, Option.bind, pure, loop]

/-- The bytes a chunk from `offset` reads, at most one count budget of values,
are those of the values that remain, and read back as those values. -/
theorem borrowToTypedSlice_chunk {maxMiniblockValues : Nat} (positive : 0 < typeSize) {values : List (List UInt8)}
    (sized : ∀ value ∈ values, value.length = typeSize) {offset valuesRemaining : Nat}
    (total : offset + valuesRemaining = values.length) :
    borrowToTypedSlice typeSize ((values.flatten.drop (offset * typeSize)).take
        (min (offset * typeSize + min valuesRemaining maxMiniblockValues * typeSize) values.flatten.length -
          offset * typeSize)) =
      some ((values.drop offset).take (min valuesRemaining maxMiniblockValues)) := by
  have dataLength := length_flatten_of_sized sized
  have restSized : ∀ value ∈ values.drop offset, value.length = typeSize :=
    fun value member => sized value (List.mem_of_mem_drop member)
  have chunkLen : min (offset * typeSize + min valuesRemaining maxMiniblockValues * typeSize) values.flatten.length -
      offset * typeSize = min valuesRemaining maxMiniblockValues * typeSize := by
    have inside : (offset + min valuesRemaining maxMiniblockValues) * typeSize ≤ values.length * typeSize :=
      Nat.mul_le_mul_right _ (by omega)
    rw [dataLength, Nat.min_eq_left (by rw [← Nat.add_mul]; exact inside), Nat.add_sub_cancel_left]
  have takenSized : ∀ value ∈ (values.drop offset).take (min valuesRemaining maxMiniblockValues),
      value.length = typeSize :=
    fun value member => restSized value (List.mem_of_mem_take member)
  rw [chunkLen, drop_flatten_of_sized sized (by omega), take_flatten_of_sized restSized (by rw [List.length_drop]; omega),
    borrowToTypedSlice, length_flatten_of_sized takenSized, Nat.mul_mod_left, if_pos rfl,
    chunksExact_flatten positive takenSized]

theorem ChunkChoice.of_fit {maxMiniblockValues valuesRemaining : Nat} {rest : List (List UInt8)}
    (remains : 0 < valuesRemaining) (restLength : rest.length = valuesRemaining)
    (fit : valuesRemaining ≤ maxMiniblockValues ∧
      encoder.encodedSize typeSize (rest.take (min valuesRemaining maxMiniblockValues)) ≤ maxMiniblockBytes) :
    encoder.ChunkChoice maxMiniblockValues typeSize rest (min valuesRemaining maxMiniblockValues) true where
  positive := by omega
  fewValues := Nat.min_le_right _ _
  fewBytes := fit.2
  last := fun _ => by rw [restLength]; omega
  power := fun notLast => absurd notLast Bool.noConfusion

/-- Where they do not, a chunk takes a power of two of them that fits, fewer
than remain: a prefix of all that remain would have fitted whole. -/
theorem ChunkChoice.of_power {maxMiniblockValues valuesRemaining found : Nat} {rest : List (List UInt8)}
    (restLength : rest.length = valuesRemaining) (exponent : 0 < found)
    (within : 2 ^ found ≤ min valuesRemaining maxMiniblockValues)
    (fits : encoder.encodedSize typeSize (rest.take (2 ^ found)) ≤ maxMiniblockBytes)
    (fit : ¬ (valuesRemaining ≤ maxMiniblockValues ∧
      encoder.encodedSize typeSize (rest.take (min valuesRemaining maxMiniblockValues)) ≤ maxMiniblockBytes)) :
    encoder.ChunkChoice maxMiniblockValues typeSize rest (2 ^ found) false where
  positive := Nat.two_pow_pos found
  fewValues := by omega
  fewBytes := fits
  last := fun isLast => absurd isLast Bool.noConfusion
  power := fun _ => by
    refine ⟨?_, found, exponent, rfl⟩
    by_contra notFewer
    apply fit
    have whole : 2 ^ found = min valuesRemaining maxMiniblockValues := by omega
    rw [← whole]
    exact ⟨by omega, fits⟩

/-- A chunk from `offset` takes a choice of the values that remain and writes
them after the buffers so far. -/
theorem encodeChunkRolling_eq {maxMiniblockValues : Nat} (two : 2 ≤ maxMiniblockValues) (positive : 0 < typeSize)
    (narrow : typeSize ≤ 8) {values : List (List UInt8)} (sized : ∀ value ∈ values, value.length = typeSize)
    {offset valuesRemaining : Nat} (remains : 0 < valuesRemaining) (total : offset + valuesRemaining = values.length)
    (buffers : List UInt8 × List UInt8) :
    ∃ numRuns count isLastChunk,
      encoder.encodeChunkRolling maxMiniblockValues typeSize values.flatten offset valuesRemaining buffers =
        some ((numRuns, count, isLastChunk), encoder.encodeValues ((values.drop offset).take count) buffers) ∧
      encoder.ChunkChoice maxMiniblockValues typeSize (values.drop offset) count isLastChunk := by
  set rest := values.drop offset with restEq
  have restLength : rest.length = valuesRemaining := by rw [restEq, List.length_drop]; omega
  have notPast : ¬ offset * typeSize ≥ values.flatten.length := by
    rw [length_flatten_of_sized sized]
    exact Nat.not_le.mpr (Nat.mul_lt_mul_of_pos_right (by omega) positive)
  have typedLength : (rest.take (min valuesRemaining maxMiniblockValues)).length = min valuesRemaining maxMiniblockValues := by
    rw [List.length_take]; omega
  have nonempty : (rest.take (min valuesRemaining maxMiniblockValues)).isEmpty = false := by
    rw [List.isEmpty_eq_false_iff, ← List.length_pos_iff, typedLength]; omega
  unfold encodeChunkRolling
  simp only []
  rw [if_neg notPast, borrowToTypedSlice_chunk positive sized total, ← restEq]
  simp only [Option.bind_eq_bind, Option.bind, typedLength, Nat.min_self, nonempty, Bool.false_eq_true, if_false,
    List.take_take]
  by_cases fit : valuesRemaining ≤ maxMiniblockValues ∧
    encoder.encodedSize typeSize (rest.take (min valuesRemaining maxMiniblockValues)) ≤ maxMiniblockBytes
  · rw [if_pos fit]
    exact ⟨_, _, true, rfl, ChunkChoice.of_fit encoder remains restLength fit⟩
  · -- a prefix of a power of two, at least two since a single value fits
    rw [if_neg fit]
    have two : 2 ≤ min (rest.take (min valuesRemaining maxMiniblockValues)).length maxMiniblockValues := by
      rw [typedLength]
      by_contra few
      apply fit
      refine ⟨by omega, encoder.encodedSize_le_maxMiniblockBytes narrow ?_⟩
      rw [List.length_take]
      omega
    obtain ⟨found, exponent, within, prefixEq, fits⟩ := encoder.largestPowerOfTwoPrefix_eq narrow two
    rw [typedLength] at within
    have taken : 2 ^ found ≤ min valuesRemaining maxMiniblockValues := by omega
    rw [List.take_take, Nat.min_eq_left taken] at fits
    simp only [prefixEq, Option.map_some, pure, Nat.min_eq_left taken]
    exact ⟨_, 2 ^ found, false, rfl, ChunkChoice.of_power encoder restLength exponent taken fits fit⟩

/-! ### The chunks of a page -/

/-- The chunk `encode_data` records for `part`: its share of each buffer, and
`logNumValues`. -/
def chunkOf (part : List (List UInt8)) (logNumValues : Nat) : MiniBlockChunk :=
  ⟨[UInt32.ofNat (encoder.writtenValues part).length, UInt32.ofNat (encoder.writtenLengths part).length],
    UInt8.ofNat logNumValues⟩

/-- The parts `encode_data` cuts the values into, each within both budgets, and
the chunks it records for them: the last logged as 0, each other a power of two
of at least two values, logged as its exponent. -/
inductive ChunkLayout (maxMiniblockValues typeSize : Nat) : List (List (List UInt8)) → List MiniBlockChunk → Prop
  | last {part : List (List UInt8)} (positive : 0 < part.length) (fewValues : part.length ≤ maxMiniblockValues)
      (fewBytes : encoder.encodedSize typeSize part ≤ maxMiniblockBytes) :
      ChunkLayout maxMiniblockValues typeSize [part] [encoder.chunkOf part 0]
  | cons {part : List (List UInt8)} {parts : List (List (List UInt8))} {chunks : List MiniBlockChunk}
      {exponent : Nat} (fewValues : part.length ≤ maxMiniblockValues)
      (fewBytes : encoder.encodedSize typeSize part ≤ maxMiniblockBytes) (positive : 0 < exponent)
      (counted : part.length = 2 ^ exponent) (rest : ChunkLayout maxMiniblockValues typeSize parts chunks) :
      ChunkLayout maxMiniblockValues typeSize (part :: parts) (encoder.chunkOf part exponent :: chunks)

theorem chunkOf_written (buffers : List UInt8 × List UInt8) (part : List (List UInt8)) (logNumValues : Nat) :
    (⟨[UInt32.ofNat ((buffers.1 ++ encoder.writtenValues part).length - buffers.1.length),
        UInt32.ofNat ((buffers.2 ++ encoder.writtenLengths part).length - buffers.2.length)],
      UInt8.ofNat logNumValues⟩ : MiniBlockChunk) = encoder.chunkOf part logNumValues := by
  simp only [List.length_append, Nat.add_sub_cancel_left, chunkOf]

theorem numValues_chunkOf_zero (part : List (List UInt8)) (valsInPrevBlocks totalNumValues : UInt64) :
    (encoder.chunkOf part 0).numValues valsInPrevBlocks totalNumValues = totalNumValues - valsInPrevBlocks := rfl

theorem numValues_chunkOf_pos (part : List (List UInt8)) {exponent : Nat} (positive : 0 < exponent)
    (small : exponent < 64) (valsInPrevBlocks totalNumValues : UInt64) :
    (encoder.chunkOf part exponent).numValues valsInPrevBlocks totalNumValues = UInt64.ofNat (2 ^ exponent) := by
  have logged : (UInt8.ofNat exponent).toNat = exponent := UInt8.toNat_ofNat_of_lt' (by unfold UInt8.size; omega)
  have nonzero : UInt8.ofNat exponent ≠ 0 := fun zero => by
    rw [zero, UInt8.toNat_zero] at logged
    omega
  have fits : 2 ^ exponent < 2 ^ 64 := Nat.pow_lt_pow_right (by decide) small
  unfold MiniBlockChunk.numValues
  rw [if_neg (show (encoder.chunkOf part exponent).logNumValues ≠ 0 from nonzero)]
  show (1 : UInt64) <<< (UInt8.ofNat exponent).toUInt64 = _
  apply UInt64.toNat_inj.mp
  rw [UInt64.toNat_shiftLeft, UInt8.toNat_toUInt64, logged, Nat.mod_eq_of_lt small, UInt64.toNat_one,
    Nat.shiftLeft_eq, Nat.one_mul, Nat.mod_eq_of_lt fits, UInt64.toNat_ofNat_of_lt' fits]

section Layout

variable {encoder} {maxMiniblockValues : Nat}

theorem exponent_lt_of_counted {parts : List (List (List UInt8))} {part : List (List UInt8)} {exponent : Nat}
    (counted : part.length = 2 ^ exponent) (short : (part :: parts).flatten.length < 2 ^ 64) : exponent < 64 := by
  have within : part.length ≤ (part :: parts).flatten.length := by simp
  exact (Nat.pow_lt_pow_iff_right (show 1 < 2 by decide)).mp (show 2 ^ exponent < 2 ^ 64 by omega)

/-- A reader's counts of the chunks are the lengths of the parts, from any count
before them that with the parts makes up the page. -/
theorem ChunkLayout.chunkValueCounts_eq {parts : List (List (List UInt8))} {chunks : List MiniBlockChunk}
    (layout : encoder.ChunkLayout maxMiniblockValues typeSize parts chunks) :
    ∀ (valsInPrevBlocks totalNumValues : UInt64),
      valsInPrevBlocks.toNat + parts.flatten.length = totalNumValues.toNat →
      chunkValueCounts totalNumValues valsInPrevBlocks chunks = parts.map fun part => UInt64.ofNat part.length := by
  induction layout with
  | @last part _ _ _ =>
    intro valsInPrevBlocks totalNumValues total
    rw [List.flatten_singleton] at total
    simp only [chunkValueCounts, numValues_chunkOf_zero, List.map_cons, List.map_nil, List.cons.injEq, and_true]
    apply UInt64.toNat_inj.mp
    rw [UInt64.toNat_sub_of_le _ _ (UInt64.le_iff_toNat_le.mpr (by omega)),
      UInt64.toNat_ofNat_of_lt' (by have := totalNumValues.toNat_lt; unfold UInt64.size; omega)]
    omega
  | @cons part parts chunks exponent _ _ positive counted _ ih =>
    intro valsInPrevBlocks totalNumValues total
    have short : (part :: parts).flatten.length < 2 ^ 64 := by have := totalNumValues.toNat_lt; omega
    have count := encoder.numValues_chunkOf_pos part positive (exponent_lt_of_counted counted short)
      valsInPrevBlocks totalNumValues
    have totalEq : valsInPrevBlocks.toNat + 2 ^ exponent + parts.flatten.length = totalNumValues.toNat := by
      simp only [List.flatten_cons, List.length_append, counted] at total
      omega
    have below : valsInPrevBlocks.toNat + 2 ^ exponent < 2 ^ 64 := by
      have := totalNumValues.toNat_lt
      omega
    have fits : 2 ^ exponent < 2 ^ 64 := by omega
    simp only [chunkValueCounts, count, List.map_cons, counted, List.cons.injEq, true_and]
    apply ih
    rw [UInt64.toNat_add, UInt64.toNat_ofNat_of_lt' fits, Nat.mod_eq_of_lt below]
    omega

theorem ChunkLayout.ne_nil {parts : List (List (List UInt8))} {chunks : List MiniBlockChunk}
    (layout : encoder.ChunkLayout maxMiniblockValues typeSize parts chunks) : parts ≠ [] ∧ chunks ≠ [] := by
  cases layout <;> exact ⟨List.cons_ne_nil _ _, List.cons_ne_nil _ _⟩

theorem ChunkLayout.getLast?_logNumValues {parts : List (List (List UInt8))} {chunks : List MiniBlockChunk}
    (layout : encoder.ChunkLayout maxMiniblockValues typeSize parts chunks) :
    chunks.getLast?.map (·.logNumValues) = some 0 := by
  induction layout with
  | last _ _ _ => rfl
  | cons _ _ _ _ _ ih =>
    obtain ⟨lastChunk, isLast, logged⟩ := Option.map_eq_some_iff.mp ih
    rw [List.getLast?_cons, isLast]
    exact congrArg some logged

theorem ChunkLayout.dropLast_powers {parts : List (List (List UInt8))} {chunks : List MiniBlockChunk}
    (layout : encoder.ChunkLayout maxMiniblockValues typeSize parts chunks) :
    parts.flatten.length < 2 ^ 64 →
      List.Forall₂ (fun chunk part => 1 ≤ chunk.logNumValues.toNat ∧ part.length = 2 ^ chunk.logNumValues.toNat)
        chunks.dropLast parts.dropLast := by
  induction layout with
  | last _ _ _ => exact fun _ => .nil
  | @cons part parts chunks exponent _ _ positive counted rest ih =>
    intro short
    have logged : (UInt8.ofNat exponent).toNat = exponent :=
      UInt8.toNat_ofNat_of_lt' (by have := exponent_lt_of_counted counted short; unfold UInt8.size; omega)
    obtain ⟨moreParts, moreChunks⟩ := rest.ne_nil
    rw [List.dropLast_cons_of_ne_nil moreParts, List.dropLast_cons_of_ne_nil moreChunks]
    refine .cons ⟨?_, ?_⟩ (ih (by simp only [List.flatten_cons, List.length_append] at short; omega))
    · show 1 ≤ (UInt8.ofNat exponent).toNat
      omega
    · show part.length = 2 ^ (UInt8.ofNat exponent).toNat
      rw [logged, counted]

end Layout

end RleEncoder

theorem RleDecompressor.valueType_size_le {bitsPerValue : UInt64} {typeSize : Nat} {typeName : String}
    (typed : RleDecompressor.valueType bitsPerValue = some (typeSize, typeName)) : typeSize ≤ 8 := by
  unfold RleDecompressor.valueType at typed
  split_ifs at typed <;> cases typed <;> decide

/-- What the encoder writes for a part of the values, read back as a mini-block
of the part's count. -/
theorem RleDecompressor.miniBlockDecompress_written {width : RunLengthWidth} {bitsPerValue : UInt64}
    {typeSize : Nat} {typeName : String} (typed : RleDecompressor.valueType bitsPerValue = some (typeSize, typeName))
    (allocates : Nat → Bool) {part : List (List UInt8)} (sized : ∀ value ∈ part, value.length = typeSize)
    (nonempty : part ≠ []) (short : part.flatten.length < 2 ^ 63) (granted : allocates part.flatten.length = true) :
    (RleDecompressor.withRunLengthWidth bitsPerValue width).miniBlockDecompress allocates
        [(RleEncoder.withRunLengthWidth width).writtenValues part,
          (RleEncoder.withRunLengthWidth width).writtenLengths part] (UInt64.ofNat part.length) =
      pure (.fixedWidth ⟨bitsPerValue, part.flatten, UInt64.ofNat part.length⟩) := by
  have positive := (RleDecompressor.valueType_size typed).1
  have fewer : part.length < 2 ^ 63 := by
    have := length_flatten_of_sized sized
    have : part.length ≤ part.length * typeSize := Nat.le_mul_of_pos_right _ positive
    omega
  have counted : part.length = (UInt64.ofNat part.length).toNat :=
    (UInt64.toNat_ofNat_of_lt' (by unfold UInt64.size; omega)).symm
  have nonzero : UInt64.ofNat part.length ≠ 0 := fun zero =>
    nonempty (List.eq_nil_of_length_eq_zero (by rw [counted, zero]; rfl))
  rw [RleDecompressor.miniBlockDecompress, RleDecompressor.decodeData_withRunLengthWidth typed allocates _ _ nonzero,
    RleDecompressor.decodeGeneric_written typed allocates sized nonempty counted short granted]
  rfl

namespace RleEncoder

variable (encoder : RleEncoder) {typeSize maxMiniblockValues : Nat} {bitsPerValue : UInt64} {typeName : String}
  {values : List (List UInt8)}

/-- The chunk recorded for a part within both budgets: its buffer sizes are the
bytes written for the part, within the byte budget, and its slices decode to the
part. -/
theorem chunkOf_holds {width : RunLengthWidth}
    (typed : RleDecompressor.valueType bitsPerValue = some (typeSize, typeName)) (allocates : Nat → Bool)
    {part : List (List UInt8)} (sized : ∀ value ∈ part, value.length = typeSize) (positive : 0 < part.length)
    (fewValues : part.length ≤ maxMiniblockValues)
    (fewBytes : (withRunLengthWidth width).encodedSize typeSize part ≤ maxMiniblockBytes)
    (short : part.flatten.length < 2 ^ 63) (granted : allocates part.flatten.length = true) (logNumValues : Nat) :
    ((withRunLengthWidth width).chunkOf part logNumValues).bufferSizes =
        [UInt32.ofNat ((withRunLengthWidth width).writtenValues part).length,
          UInt32.ofNat ((withRunLengthWidth width).writtenLengths part).length] ∧
      ((withRunLengthWidth width).writtenValues part).length +
          ((withRunLengthWidth width).writtenLengths part).length ≤ maxMiniblockBytes ∧
      0 < part.length ∧ part.length ≤ maxMiniblockValues ∧
      (RleDecompressor.withRunLengthWidth bitsPerValue width).miniBlockDecompress allocates
          [(withRunLengthWidth width).writtenValues part, (withRunLengthWidth width).writtenLengths part]
          (UInt64.ofNat part.length) =
        pure (.fixedWidth ⟨bitsPerValue, part.flatten, UInt64.ofNat part.length⟩) := by
  refine ⟨rfl, ?_, positive, fewValues, ?_⟩
  · rw [← encodedSize_eq_written _ sized]
    exact fewBytes
  · exact RleDecompressor.miniBlockDecompress_written typed allocates sized (List.ne_nil_of_length_pos positive) short
      granted

/-- The run lemma of the loop of `encode_data`: from any offset with values
left, the loop writes the parts of what remains one after another, and records
their chunks after the chunks so far. -/
theorem encodeDataLoop_eq (two : 2 ≤ maxMiniblockValues)
    (typed : RleDecompressor.valueType bitsPerValue = some (typeSize, typeName))
    (sized : ∀ value ∈ values, value.length = typeSize) :
    ∀ (valuesRemaining offset : Nat) (buffers : List UInt8 × List UInt8) (chunks : List MiniBlockChunk),
      0 < valuesRemaining → offset + valuesRemaining = values.length →
      ∃ parts written,
        encoder.encodeDataLoop maxMiniblockValues values.flatten bitsPerValue offset valuesRemaining buffers chunks =
          pure ((buffers.1 ++ (parts.map encoder.writtenValues).flatten,
            buffers.2 ++ (parts.map encoder.writtenLengths).flatten), chunks ++ written) ∧
        parts.flatten = values.drop offset ∧ encoder.ChunkLayout maxMiniblockValues typeSize parts written := by
  intro valuesRemaining
  induction valuesRemaining using Nat.strong_induction_on with
  | _ valuesRemaining ih =>
  intro offset buffers chunks remains total
  have positive := (RleDecompressor.valueType_size typed).1
  obtain ⟨numRuns, count, isLastChunk, chunkEq, choice⟩ :=
    encoder.encodeChunkRolling_eq two positive (RleDecompressor.valueType_size_le typed) sized remains total buffers
  rw [encodeDataLoop, dif_pos remains]
  simp only [typed, chunkEq, liftM_some, pure_bind, dif_neg (Nat.ne_of_gt choice.positive), encodeValues_append,
    chunkOf_written]
  cases isLastChunk with
  | true =>
    -- the last chunk takes all that remain, and the loop ends
    have whole : count = valuesRemaining := by rw [choice.last rfl, List.length_drop]; omega
    rw [if_pos rfl, encodeDataLoop, dif_neg (by omega)]
    refine ⟨[(values.drop offset).take count], [encoder.chunkOf ((values.drop offset).take count) 0], ?_, ?_, ?_⟩
    · simp
    · rw [List.flatten_singleton, List.take_of_length_le (by rw [List.length_drop]; omega)]
    · have length : ((values.drop offset).take count).length = count := by
        rw [List.length_take, List.length_drop]; omega
      exact .last (by rw [length]; exact choice.positive) (by rw [length]; exact choice.fewValues) choice.fewBytes
  | false =>
    -- a power of two, fewer than remain: the loop goes on from after it
    obtain ⟨fewer, exponent, positiveExponent, counted⟩ := choice.power rfl
    rw [List.length_drop] at fewer
    subst counted
    simp only [Bool.false_eq_true, if_false, isPowerOfTwo_two_pow, if_true, ilog2_two_pow, liftM_some, pure_bind]
    have powered := Nat.two_pow_pos exponent
    have left : 0 < valuesRemaining - 2 ^ exponent := by omega
    have after : offset + 2 ^ exponent + (valuesRemaining - 2 ^ exponent) = values.length := by omega
    obtain ⟨parts, written, loop, flattened, layout⟩ := ih (valuesRemaining - 2 ^ exponent) (by omega)
      (offset + 2 ^ exponent) _ _ left after
    refine ⟨(values.drop offset).take (2 ^ exponent) :: parts,
      encoder.chunkOf ((values.drop offset).take (2 ^ exponent)) exponent :: written, ?_, ?_, ?_⟩
    · rw [loop]
      simp
    · rw [List.flatten_cons, flattened, ← List.drop_drop, List.take_append_drop]
    · have length : ((values.drop offset).take (2 ^ exponent)).length = 2 ^ exponent := by
        rw [List.length_take, List.length_drop]; omega
      exact .cons (by rw [length]; exact choice.fewValues) choice.fewBytes positiveExponent length layout

/-- Every chunk of a layout of values of the type's size holds its part. -/
theorem ChunkLayout.forall₂_holds {width : RunLengthWidth}
    (typed : RleDecompressor.valueType bitsPerValue = some (typeSize, typeName)) (allocates : Nat → Bool)
    {parts : List (List (List UInt8))} {chunks : List MiniBlockChunk}
    (layout : (withRunLengthWidth width).ChunkLayout maxMiniblockValues typeSize parts chunks) :
    (∀ value ∈ parts.flatten, value.length = typeSize) → parts.flatten.flatten.length < 2 ^ 63 →
      (∀ size ≤ parts.flatten.flatten.length, allocates size = true) →
      List.Forall₂ (fun chunk part =>
        chunk.bufferSizes = [UInt32.ofNat ((withRunLengthWidth width).writtenValues part).length,
          UInt32.ofNat ((withRunLengthWidth width).writtenLengths part).length] ∧
        ((withRunLengthWidth width).writtenValues part).length +
            ((withRunLengthWidth width).writtenLengths part).length ≤ maxMiniblockBytes ∧
        0 < part.length ∧ part.length ≤ maxMiniblockValues ∧
        (RleDecompressor.withRunLengthWidth bitsPerValue width).miniBlockDecompress allocates
            [(withRunLengthWidth width).writtenValues part, (withRunLengthWidth width).writtenLengths part]
            (UInt64.ofNat part.length) =
          pure (.fixedWidth ⟨bitsPerValue, part.flatten, UInt64.ofNat part.length⟩)) chunks parts := by
  induction layout with
  | @last part positive fewValues fewBytes =>
    intro sized short granted
    rw [List.flatten_singleton] at sized short granted
    exact .cons (chunkOf_holds typed allocates sized positive fewValues fewBytes short (granted _ (Nat.le_refl _)) 0)
      .nil
  | @cons part parts chunks exponent fewValues fewBytes positive counted rest ih =>
    intro sized short granted
    have partSized : ∀ value ∈ part, value.length = typeSize :=
      fun value member => sized value (List.mem_flatten_of_mem List.mem_cons_self member)
    have lengths : (part :: parts).flatten.flatten.length = part.flatten.length + parts.flatten.flatten.length := by
      simp only [List.flatten_cons, List.flatten_append, List.length_append]
    have partFits := chunkOf_holds typed allocates partSized (by rw [counted]; exact Nat.two_pow_pos _) fewValues
      fewBytes (by omega) (granted _ (by omega)) exponent
    refine .cons partFits (ih ?_ (by omega) fun size within => granted size (by omega))
    intro value member
    exact sized value (by rw [List.flatten_cons]; exact List.mem_append_right _ member)

/-- When a chunk may hold two values, `encode_data` cuts the values into parts
that it writes one after another into the two buffers; a reader's count of each
chunk is its part's length, the last chunk is logged as 0 and each other holds
the power of two it logs; each chunk's sizes are the bytes written for its
part, within the budgets, and its slices decode to the part. -/
theorem encodeData_chunks (width : RunLengthWidth) (two : 2 ≤ maxMiniblockValues)
    (typed : RleDecompressor.valueType bitsPerValue = some (typeSize, typeName))
    (sized : ∀ value ∈ values, value.length = typeSize) {numValues : UInt64} (counted : values.length = numValues.toNat)
    (nonempty : values ≠ []) (fits : values.flatten.length < 2 ^ 63) (allocates : Nat → Bool)
    (granted : ∀ size ≤ values.flatten.length, allocates size = true) :
    ∃ allValues allLengths chunks parts,
      (withRunLengthWidth width).encodeData maxMiniblockValues values.flatten numValues bitsPerValue =
        pure ([allValues, allLengths], chunks) ∧
      parts.flatten = values ∧
      allValues = (parts.map (withRunLengthWidth width).writtenValues).flatten ∧
      allLengths = (parts.map (withRunLengthWidth width).writtenLengths).flatten ∧
      chunkValueCounts numValues 0 chunks = parts.map (fun part => UInt64.ofNat part.length) ∧
      chunks.getLast?.map (·.logNumValues) = some 0 ∧
      List.Forall₂ (fun chunk part => 1 ≤ chunk.logNumValues.toNat ∧ part.length = 2 ^ chunk.logNumValues.toNat)
        chunks.dropLast parts.dropLast ∧
      List.Forall₂ (fun chunk part =>
        chunk.bufferSizes = [UInt32.ofNat ((withRunLengthWidth width).writtenValues part).length,
          UInt32.ofNat ((withRunLengthWidth width).writtenLengths part).length] ∧
        ((withRunLengthWidth width).writtenValues part).length +
            ((withRunLengthWidth width).writtenLengths part).length ≤ maxMiniblockBytes ∧
        0 < part.length ∧ part.length ≤ maxMiniblockValues ∧
        (RleDecompressor.withRunLengthWidth bitsPerValue width).miniBlockDecompress allocates
            [(withRunLengthWidth width).writtenValues part, (withRunLengthWidth width).writtenLengths part]
            (UInt64.ofNat part.length) =
          pure (.fixedWidth ⟨bitsPerValue, part.flatten, UInt64.ofNat part.length⟩)) chunks parts := by
  have someValues : 0 < numValues.toNat := by rw [← counted]; exact List.length_pos_iff.mpr nonempty
  have nonzero : numValues ≠ 0 := fun zero => by rw [zero, UInt64.toNat_zero] at someValues; omega
  obtain ⟨parts, written, loop, flattened, layout⟩ := (withRunLengthWidth width).encodeDataLoop_eq two typed sized
    numValues.toNat 0 ([], []) [] someValues (by omega)
  rw [List.drop_zero] at flattened
  refine ⟨_, _, written, parts, ?_, flattened, rfl, rfl, ?_, layout.getLast?_logNumValues, ?_, ?_⟩
  · rw [encodeData, if_neg nonzero, loop]
    rfl
  · exact layout.chunkValueCounts_eq 0 numValues (by rw [flattened, counted, UInt64.toNat_zero, Nat.zero_add])
  · apply layout.dropLast_powers
    rw [flattened]
    have : values.length ≤ values.flatten.length := by
      rw [length_flatten_of_sized sized]
      exact Nat.le_mul_of_pos_right _ (RleDecompressor.valueType_size typed).1
    omega
  · rw [← flattened] at sized fits granted
    exact layout.forall₂_holds typed allocates sized fits granted

/-- Three bytes in two runs, under the default budget of 4096 values. -/
theorem encodeData_chunks_at_twoRuns :
    2 ≤ 4096 ∧ RleDecompressor.valueType 8 = some (1, "u8") ∧ (∀ value ∈ [[5], [5], [7]], value.length = 1) ∧
      [[5], [5], [7]].length = (3 : UInt64).toNat ∧ ([[5], [5], [7]] : List (List UInt8)) ≠ [] ∧
      ([[5], [5], [7]] : List (List UInt8)).flatten.length < 2 ^ 63 ∧
      (∀ size ≤ ([[5], [5], [7]] : List (List UInt8)).flatten.length, (fun _ => true) size = true) ∧
    ∃ allValues allLengths chunks parts,
      (withRunLengthWidth .u8).encodeData 4096 [5, 5, 7] 3 8 = pure ([allValues, allLengths], chunks) ∧
      parts.flatten = [[5], [5], [7]] ∧
      allValues = (parts.map (withRunLengthWidth .u8).writtenValues).flatten ∧
      allLengths = (parts.map (withRunLengthWidth .u8).writtenLengths).flatten ∧
      chunkValueCounts 3 0 chunks = parts.map (fun part => UInt64.ofNat part.length) ∧
      chunks.getLast?.map (·.logNumValues) = some 0 ∧
      List.Forall₂ (fun chunk part => 1 ≤ chunk.logNumValues.toNat ∧ part.length = 2 ^ chunk.logNumValues.toNat)
        chunks.dropLast parts.dropLast ∧
      List.Forall₂ (fun chunk part =>
        chunk.bufferSizes = [UInt32.ofNat ((withRunLengthWidth .u8).writtenValues part).length,
          UInt32.ofNat ((withRunLengthWidth .u8).writtenLengths part).length] ∧
        ((withRunLengthWidth .u8).writtenValues part).length +
            ((withRunLengthWidth .u8).writtenLengths part).length ≤ maxMiniblockBytes ∧
        0 < part.length ∧ part.length ≤ 4096 ∧
        (RleDecompressor.withRunLengthWidth 8 .u8).miniBlockDecompress (fun _ => true)
            [(withRunLengthWidth .u8).writtenValues part, (withRunLengthWidth .u8).writtenLengths part]
            (UInt64.ofNat part.length) =
          pure (.fixedWidth ⟨8, part.flatten, UInt64.ofNat part.length⟩)) chunks parts :=
  ⟨by decide, rfl, by decide, rfl, List.cons_ne_nil _ _, by decide, fun _ _ => rfl,
    @encodeData_chunks 1 4096 8 "u8" [[5], [5], [7]] .u8 (by decide) rfl (by decide) 3 rfl (List.cons_ne_nil _ _)
      (by decide) (fun _ => true) fun _ _ => rfl⟩

/-- With `LANCE_MINIBLOCK_MAX_VALUES` set to 1, two values make no chunk: all
that remain do not fit in one value, and no power of two of at least two does. -/
theorem encodeData_stalls_at_one_value_chunks :
    (parseMaxMiniblockValues (some 1)).toNat = 1 ∧
      (withRunLengthWidth .u8).encodeData 1 [5, 7] 2 8 = throw (noProgressError 2 0 2 8 1) := by
  refine ⟨by decide, ?_⟩
  rw [encodeData, if_neg (by decide), encodeDataLoop]
  rfl

end RleEncoder

end Lance.Encoding
