import Lance.Encoding.RleMiniBlock
import Lance.Library.Digits
import Lance.Library.OptionList

/-! Out-of-line bitpacking (`bitpack_out_of_line`, `unpack_out_of_line` and the
block compressor `OutOfLineBitpacking`). The values are packed in chunks of 1024
at one bit width by `lance_bitpacking`, whose two operations are parameters of
this model. A last chunk of fewer values is padded with zeros and packed when
that is smaller, and stored raw otherwise; the decoder is not told which, and
tells the two apart by the length of the buffer. -/

namespace Lance.Encoding

open Lance.Library

def logElemsPerChunk : Nat := 10

def elemsPerChunk : Nat := 1 <<< logElemsPerChunk

theorem elemsPerChunk_eq : elemsPerChunk = 1024 := rfl

/-- The operations of `lance_bitpacking::BitPacking` for the word of `wordBits`
bits, words and values taken as numbers. Each writes into a slice of the length
it is given, with values of the word's type. -/
structure BitPacking where
  /-- `unchecked_pack(width, input, output)`: the words written into an output of `outputLen` words. -/
  uncheckedPack : (wordBits width : Nat) → List Nat → (outputLen : Nat) → List Nat
  /-- `unchecked_unpack(width, input, output)`: the values written into an output of `outputLen` values. -/
  uncheckedUnpack : (wordBits width : Nat) → List Nat → (outputLen : Nat) → List Nat
  length_uncheckedPack : ∀ wordBits width input outputLen,
    (uncheckedPack wordBits width input outputLen).length = outputLen
  length_uncheckedUnpack : ∀ wordBits width input outputLen,
    (uncheckedUnpack wordBits width input outputLen).length = outputLen
  lt_of_mem_uncheckedPack : ∀ wordBits width input outputLen, ∀ word ∈ uncheckedPack wordBits width input outputLen,
    word < 2 ^ wordBits
  lt_of_mem_uncheckedUnpack : ∀ wordBits width input outputLen,
    ∀ value ∈ uncheckedUnpack wordBits width input outputLen, value < 2 ^ wordBits

/-- The words a chunk packs to, `(ELEMS_PER_CHUNK * compressed_bits_per_value)
.div_ceil(bits_per_value)`; the product panics on overflow. -/
def packedWordsPerChunk (compressedBitsPerValue bitsPerValue : Nat) : Option Nat := do
  let packedBits ← debugMul 64 elemsPerChunk compressedBitsPerValue
  pure (divCeil packedBits bitsPerValue)

/-- `borrow_to_typed_slice::<T>` for a `T` of `wordBytes` bytes, each word read
as its number. -/
def borrowToTypedWords (wordBytes : Nat) (bytes : List UInt8) : Option (List Nat) :=
  (borrowToTypedSlice wordBytes bytes).map fun words => words.map fromLeBytes

/-- The loop of `bitpack_out_of_line` over the whole chunks: each chunk of 1024
values packed into its own words. -/
def packWholeChunks (packing : BitPacking) (wordBits compressedBitsPerValue : Nat) (dataBuffer : List Nat)
    (wordsPerChunk numWholeChunks : Nat) : List Nat :=
  (List.range numWholeChunks).flatMap fun i =>
    packing.uncheckedPack wordBits compressedBitsPerValue ((dataBuffer.drop (i * elemsPerChunk)).take elemsPerChunk)
      wordsPerChunk

/-- The loop of `unpack_out_of_line` over the whole chunks: each chunk's words,
sliced out of the buffer, unpacked into 1024 values. -/
def unpackWholeChunks (packing : BitPacking) (wordBits compressedBitsPerValue : Nat) (compressedWords : List Nat)
    (wordsPerChunk numWholeChunks : Nat) : Option (List (List Nat)) :=
  (List.range numWholeChunks).mapM fun chunkIdx => do
    let input ← sliceRange compressedWords (chunkIdx * wordsPerChunk) (chunkIdx * wordsPerChunk + wordsPerChunk)
    pure (packing.uncheckedUnpack wordBits compressedBitsPerValue input elemsPerChunk)

/-- `bitpack_out_of_line::<T>` for a `T` of `wordBits` bits: the words, put end
to end as `LanceBuffer::reinterpret_vec` does; `none` is a panic. -/
def bitpackOutOfLine (packing : BitPacking) (wordBits : Nat) (data : FixedWidthDataBlock)
    (compressedBitsPerValue : Nat) : Option (List UInt8) := do
  let dataBuffer ← borrowToTypedWords (wordBits / 8) data.data
  let numChunks := divCeil dataBuffer.length elemsPerChunk
  let lastChunkIsRunt := dataBuffer.length % elemsPerChunk ≠ 0
  let wordsPerChunk ← packedWordsPerChunk compressedBitsPerValue data.bitsPerValue.toNat
  let numWholeChunks := if lastChunkIsRunt then numChunks - 1 else numChunks
  let output := packWholeChunks packing wordBits compressedBitsPerValue dataBuffer wordsPerChunk numWholeChunks
  if ¬ lastChunkIsRunt then pure (encodeWords (wordBits / 8) output)
  else do
    let lastChunkStart := numWholeChunks * elemsPerChunk
    let remainingItems := dataBuffer.length - lastChunkStart
    let uncompressedBits := data.bitsPerValue.toNat
    let tailBitSavings := uncompressedBits - compressedBitsPerValue
    let paddingCost ← debugMul 64 compressedBitsPerValue (elemsPerChunk - remainingItems)
    let tailPackSavings := saturateUsize (tailBitSavings * remainingItems)
    -- the two `debug_assert!`s of the tail
    if remainingItems = 0 ∨ tailBitSavings = 0 then none
    else if paddingCost < tailPackSavings then
      let lastChunk := dataBuffer.drop lastChunkStart ++ List.replicate (elemsPerChunk - remainingItems) 0
      pure (encodeWords (wordBits / 8)
        (output ++ packing.uncheckedPack wordBits compressedBitsPerValue lastChunk wordsPerChunk))
    else pure (encodeWords (wordBits / 8) (output ++ dataBuffer.drop lastChunkStart))

/-- `unpack_out_of_line::<T>` for a `T` of `wordBits` bits; `none` is a panic,
of a slice out of the buffer or of the last `debug_assert_eq!`. -/
def unpackOutOfLine (packing : BitPacking) (wordBits : Nat) (data : FixedWidthDataBlock)
    (numValues compressedBitsPerValue : Nat) : Option FixedWidthDataBlock := do
  let wordsPerChunk ← packedWordsPerChunk compressedBitsPerValue data.bitsPerValue.toNat
  let compressedWords ← borrowToTypedWords (wordBits / 8) data.data
  let numWholeChunks := numValues / elemsPerChunk
  let tailValues := numValues % elemsPerChunk
  let expectedFullWords := numWholeChunks * wordsPerChunk
  let expectedNewLen := expectedFullWords + tailValues
  let tailIsRaw := tailValues > 0 ∧ compressedWords.length = expectedNewLen
  let chunks ← unpackWholeChunks packing wordBits compressedBitsPerValue compressedWords wordsPerChunk numWholeChunks
  let decompressed ←
    if tailValues > 0 then
      -- the layout of the tail, told by the length of the buffer
      if tailIsRaw then do
        let tail ← sliceRange compressedWords expectedFullWords (expectedFullWords + tailValues)
        pure (chunks.flatten ++ tail)
      else do
        let input ← sliceRange compressedWords expectedFullWords (expectedFullWords + wordsPerChunk)
        pure (chunks.flatten ++
          (packing.uncheckedUnpack wordBits compressedBitsPerValue input elemsPerChunk).take tailValues)
    else pure chunks.flatten
  if decompressed.length ≠ numValues then none
  else pure ⟨data.bitsPerValue, encodeWords (wordBits / 8) decompressed, UInt64.ofNat numValues⟩

structure OutOfLineBitpacking where
  compressedBitWidth : UInt64
  uncompressedBitWidth : UInt64

namespace OutOfLineBitpacking

def new (compressedBitWidth uncompressedBitWidth : UInt64) : OutOfLineBitpacking :=
  ⟨compressedBitWidth, uncompressedBitWidth⟩

def wordWidths : List UInt64 := [8, 16, 32, 64]

/-- `BlockCompressor::compress`: the word is chosen by the width of the block;
`none` is a panic, also of a block that is not of fixed width. -/
def compress (packing : BitPacking) (compressor : OutOfLineBitpacking) (data : DataBlock) : Option (List UInt8) :=
  match data with
  | .fixedWidth fixedWidth =>
    if fixedWidth.bitsPerValue ∈ wordWidths then
      bitpackOutOfLine packing fixedWidth.bitsPerValue.toNat fixedWidth compressor.compressedBitWidth.toNat
    else none
  | .other => none

/-- `BlockDecompressor::decompress`: the word is chosen by the uncompressed
width; `none` is a panic. -/
def decompress (packing : BitPacking) (decompressor : OutOfLineBitpacking) (data : List UInt8) (numValues : UInt64) :
    Option DataBlock :=
  if decompressor.uncompressedBitWidth ∉ wordWidths then none
  else
    let wordSize := decompressor.uncompressedBitWidth.toNat / 8
    -- `debug_assert_eq!(data.len() % word_size, 0)`
    if data.length % wordSize ≠ 0 then none
    else do
      let totalWords := data.length / wordSize
      let block : FixedWidthDataBlock := ⟨decompressor.uncompressedBitWidth, data, UInt64.ofNat totalWords⟩
      let unpacked ← unpackOutOfLine packing decompressor.uncompressedBitWidth.toNat block numValues.toNat
        decompressor.compressedBitWidth.toNat
      pure (.fixedWidth unpacked)

end OutOfLineBitpacking

/-! ### What the round trip assumes of `lance_bitpacking` -/

/-- The assumption for the word of `wordBits` bits: at every width below the
word's, unpacking the words a chunk of 1024 values packs to gives the chunk
back, when each value fits in the width. -/
def BitPacking.Inverts (packing : BitPacking) (wordBits : Nat) : Prop :=
  ∀ width (chunk : List Nat), width < wordBits → chunk.length = elemsPerChunk → (∀ value ∈ chunk, value < 2 ^ width) →
    packing.uncheckedUnpack wordBits width
      (packing.uncheckedPack wordBits width chunk (divCeil (elemsPerChunk * width) wordBits)) elemsPerChunk = chunk

/-- A packing that meets the assumption: the values of a chunk as the digits of
one number in base `2 ^ width`, written again in base `2 ^ wordBits`. -/
def digitPacking : BitPacking where
  uncheckedPack wordBits width input outputLen :=
    fixedDigits (2 ^ wordBits) outputLen (Nat.ofDigits (2 ^ width) input)
  uncheckedUnpack wordBits width input outputLen :=
    (fixedDigits (2 ^ width) outputLen (Nat.ofDigits (2 ^ wordBits) input)).map (· % 2 ^ wordBits)
  length_uncheckedPack _ _ _ _ := length_fixedDigits _ _ _
  length_uncheckedUnpack _ _ _ _ := by rw [List.length_map, length_fixedDigits]
  lt_of_mem_uncheckedPack wordBits _ _ _ _ member := lt_of_mem_fixedDigits (Nat.two_pow_pos wordBits) member
  lt_of_mem_uncheckedUnpack wordBits _ _ _ value member := by
    obtain ⟨digit, _, rfl⟩ := List.mem_map.mp member
    exact Nat.mod_lt _ (Nat.two_pow_pos wordBits)

theorem digitPacking_inverts {wordBits : Nat} (positive : 0 < wordBits) : digitPacking.Inverts wordBits := by
  intro width chunk narrower length small
  set wordsPerChunk := divCeil (elemsPerChunk * width) wordBits
  -- the chunk's number fits in the words, as `wordBits * wordsPerChunk` bits cover the chunk's
  have covered : width * elemsPerChunk ≤ wordBits * wordsPerChunk := by
    rw [Nat.mul_comm]
    exact le_mul_divCeil positive
  have fits : Nat.ofDigits (2 ^ width) chunk < (2 ^ wordBits) ^ wordsPerChunk :=
    calc Nat.ofDigits (2 ^ width) chunk
        < (2 ^ width) ^ chunk.length := ofDigits_lt_pow small
      _ = 2 ^ (width * elemsPerChunk) := by rw [length, ← Nat.pow_mul]
      _ ≤ 2 ^ (wordBits * wordsPerChunk) := Nat.pow_le_pow_right (by decide) covered
      _ = (2 ^ wordBits) ^ wordsPerChunk := Nat.pow_mul _ _ _
  have narrow : ∀ value ∈ chunk, value < 2 ^ wordBits :=
    fun value member => Nat.lt_trans (small value member) (Nat.pow_lt_pow_right (by decide) narrower)
  show (fixedDigits (2 ^ width) elemsPerChunk (Nat.ofDigits (2 ^ wordBits)
      (fixedDigits (2 ^ wordBits) wordsPerChunk (Nat.ofDigits (2 ^ width) chunk)))).map (· % 2 ^ wordBits) = chunk
  rw [ofDigits_fixedDigits (Nat.two_pow_pos wordBits) fits, ← length, fixedDigits_ofDigits small]
  conv_rhs => rw [← List.map_id chunk]
  exact List.map_congr_left fun value member => Nat.mod_eq_of_lt (narrow value member)

/-! ### The layout of the words -/

def wholeChunks (values : List Nat) : List (List Nat) :=
  (List.range (values.length / elemsPerChunk)).map fun i => (values.drop (i * elemsPerChunk)).take elemsPerChunk

/-- What follows the packed whole chunks reads back as the values after them:
when the values do not end on a chunk, either the tail stored raw, as long as
the tail, or of another length, whose first chunk of words unpacks to the tail
and padding. -/
def TailReads (packing : BitPacking) (wordBits width wordsPerChunk : Nat) (values rest : List Nat) : Prop :=
  values.length % elemsPerChunk > 0 →
    (rest.length = values.length % elemsPerChunk → rest = values.drop (values.length / elemsPerChunk * elemsPerChunk)) ∧
    (rest.length ≠ values.length % elemsPerChunk → wordsPerChunk ≤ rest.length ∧
      (packing.uncheckedUnpack wordBits width (rest.take wordsPerChunk) elemsPerChunk).take
        (values.length % elemsPerChunk) = values.drop (values.length / elemsPerChunk * elemsPerChunk))

theorem length_of_mem_wholeChunks {values chunk : List Nat} (member : chunk ∈ wholeChunks values) :
    chunk.length = elemsPerChunk := by
  obtain ⟨i, inRange, rfl⟩ := List.mem_map.mp member
  have before : (i + 1) * elemsPerChunk ≤ values.length / elemsPerChunk * elemsPerChunk :=
    Nat.mul_le_mul_right _ (List.mem_range.mp inRange)
  have whole := Nat.div_mul_le_self values.length elemsPerChunk
  rw [List.length_take, List.length_drop, Nat.succ_mul] at *
  omega

theorem flatten_wholeChunks (values : List Nat) :
    (wholeChunks values).flatten = values.take (values.length / elemsPerChunk * elemsPerChunk) :=
  flatten_range_slices elemsPerChunk values _

theorem mem_of_mem_wholeChunks {values chunk : List Nat} {value : Nat} (member : chunk ∈ wholeChunks values)
    (inChunk : value ∈ chunk) : value ∈ values := by
  obtain ⟨i, _, rfl⟩ := List.mem_map.mp member
  exact List.mem_of_mem_drop (List.mem_of_mem_take inChunk)

theorem borrowToTypedWords_encodeWords {wordBytes : Nat} (positive : 0 < wordBytes) {words : List Nat}
    (fits : ∀ word ∈ words, word < 256 ^ wordBytes) : borrowToTypedWords wordBytes (encodeWords wordBytes words) = some words := by
  rw [borrowToTypedWords, borrowToTypedSlice, length_encodeWords, Nat.mul_mod_right, if_pos rfl, Option.map_some]
  exact congrArg some (decodeWords_encodeWords positive fits)

theorem packedWordsPerChunk_eq {compressedBitsPerValue : Nat} (narrow : compressedBitsPerValue < 2 ^ 54)
    (bitsPerValue : Nat) :
    packedWordsPerChunk compressedBitsPerValue bitsPerValue =
      some (divCeil (elemsPerChunk * compressedBitsPerValue) bitsPerValue) := by
  have fits : elemsPerChunk * compressedBitsPerValue < 2 ^ 64 := by
    show 1024 * compressedBitsPerValue < 2 ^ 64
    omega
  rw [packedWordsPerChunk, debugMul_of_lt fits]
  rfl

section RoundTrip

variable {packing : BitPacking} {wordBits width : Nat}

theorem wordBits_facts (word : wordBits ∈ [8, 16, 32, 64]) :
    0 < wordBits / 8 ∧ 256 ^ (wordBits / 8) = 2 ^ wordBits ∧ wordBits ∣ elemsPerChunk ∧ wordBits ≤ 64 := by
  simp only [List.mem_cons, List.not_mem_nil, or_false] at word
  rcases word with rfl | rfl | rfl | rfl <;> decide

theorem packWholeChunks_eq (values : List Nat) (wordsPerChunk : Nat) :
    packWholeChunks packing wordBits width values wordsPerChunk (values.length / elemsPerChunk) =
      ((wholeChunks values).map fun chunk => packing.uncheckedPack wordBits width chunk wordsPerChunk).flatten := by
  rw [packWholeChunks, wholeChunks, List.flatMap_def, List.map_map]
  rfl

/-- The decoder's loop unpacks the whole chunks the encoder's loop packed,
whatever follows them. -/
theorem unpackWholeChunks_eq (inverts : packing.Inverts wordBits) (narrower : width < wordBits) {values : List Nat}
    (small : ∀ value ∈ values, value < 2 ^ width) (rest : List Nat) :
    unpackWholeChunks packing wordBits width
        (((wholeChunks values).map fun chunk =>
          packing.uncheckedPack wordBits width chunk (divCeil (elemsPerChunk * width) wordBits)).flatten ++ rest)
        (divCeil (elemsPerChunk * width) wordBits) (values.length / elemsPerChunk) =
      some (wholeChunks values) := by
  set wordsPerChunk := divCeil (elemsPerChunk * width) wordBits
  set packed := (wholeChunks values).map fun chunk => packing.uncheckedPack wordBits width chunk wordsPerChunk
  have sized : ∀ piece ∈ packed, piece.length = wordsPerChunk := by
    intro piece member
    obtain ⟨chunk, _, rfl⟩ := List.mem_map.mp member
    exact packing.length_uncheckedPack _ _ _ _
  rw [unpackWholeChunks]
  show List.mapM _ (List.range (values.length / elemsPerChunk)) =
    some ((List.range (values.length / elemsPerChunk)).map fun i => (values.drop (i * elemsPerChunk)).take elemsPerChunk)
  apply mapM_eq_some_map
  intro i member
  have index : i < packed.length := by simpa [packed, wholeChunks] using member
  have chunk : (values.drop (i * elemsPerChunk)).take elemsPerChunk ∈ wholeChunks values :=
    List.mem_map.mpr ⟨i, member, rfl⟩
  have unpacked := inverts width _ narrower (length_of_mem_wholeChunks chunk)
    fun value inChunk => small value (mem_of_mem_wholeChunks chunk inChunk)
  rw [sliceRange_flatten_of_sized sized rest index]
  simp only [packed, wholeChunks, List.getElem_map, List.getElem_range, Option.bind_eq_bind, Option.bind, pure]
  exact congrArg some unpacked

/-- The decoder reads the values back from their packed whole chunks and a tail
that reads back. -/
theorem unpackOutOfLine_eq (word : wordBits ∈ [8, 16, 32, 64]) (narrower : width < wordBits)
    (inverts : packing.Inverts wordBits) {values : List Nat} (small : ∀ value ∈ values, value < 2 ^ width)
    {rest : List Nat} (restFits : ∀ word ∈ rest, word < 2 ^ wordBits)
    (tail : TailReads packing wordBits width (divCeil (elemsPerChunk * width) wordBits) values rest)
    {bitsPerValue : UInt64} (typed : bitsPerValue.toNat = wordBits) (count : UInt64) :
    unpackOutOfLine packing wordBits ⟨bitsPerValue, encodeWords (wordBits / 8)
        (((wholeChunks values).map fun chunk =>
          packing.uncheckedPack wordBits width chunk (divCeil (elemsPerChunk * width) wordBits)).flatten ++ rest),
        count⟩ values.length width =
      some ⟨bitsPerValue, encodeWords (wordBits / 8) values, UInt64.ofNat values.length⟩ := by
  obtain ⟨bytes, range, _, atMost⟩ := wordBits_facts word
  have sized : ∀ piece ∈ (wholeChunks values).map (fun chunk =>
      packing.uncheckedPack wordBits width chunk (divCeil (elemsPerChunk * width) wordBits)),
      piece.length = divCeil (elemsPerChunk * width) wordBits := by
    intro piece member
    obtain ⟨chunk, _, rfl⟩ := List.mem_map.mp member
    exact packing.length_uncheckedPack _ _ _ _
  have fits : ∀ word ∈ ((wholeChunks values).map fun chunk =>
      packing.uncheckedPack wordBits width chunk (divCeil (elemsPerChunk * width) wordBits)).flatten ++ rest,
      word < 256 ^ (wordBits / 8) := by
    rw [range]
    intro word member
    rcases List.mem_append.mp member with inPacked | inRest
    · obtain ⟨piece, pieceIn, inPiece⟩ := List.mem_flatten.mp inPacked
      obtain ⟨chunk, _, rfl⟩ := List.mem_map.mp pieceIn
      exact packing.lt_of_mem_uncheckedPack _ _ _ _ _ inPiece
    · exact restFits word inRest
  unfold unpackOutOfLine
  simp only [typed, packedWordsPerChunk_eq (by omega : width < 2 ^ 54) wordBits, borrowToTypedWords_encodeWords bytes fits,
    unpackWholeChunks_eq inverts narrower small rest, Option.bind_eq_bind, Option.bind, pure]
  set wordsPerChunk := divCeil (elemsPerChunk * width) wordBits
  set packed := (wholeChunks values).map fun chunk => packing.uncheckedPack wordBits width chunk wordsPerChunk
  have packedLength : packed.flatten.length = values.length / elemsPerChunk * wordsPerChunk := by
    rw [length_flatten_of_sized sized, List.length_map, wholeChunks, List.length_map, List.length_range]
  have whole := Nat.div_add_mod values.length elemsPerChunk
  have split := List.take_append_drop (values.length / elemsPerChunk * elemsPerChunk) values
  rw [flatten_wholeChunks]
  by_cases remains : values.length % elemsPerChunk > 0
  · obtain ⟨rawReads, packedReads⟩ := tail remains
    rw [if_pos remains]
    by_cases raw : rest.length = values.length % elemsPerChunk
    · -- stored raw: the buffer is as long as the decoder expects of a raw tail
      rw [if_pos ⟨remains, by rw [List.length_append, packedLength, raw]⟩]
      have slice : sliceRange (packed.flatten ++ rest) (values.length / elemsPerChunk * wordsPerChunk)
          (values.length / elemsPerChunk * wordsPerChunk + values.length % elemsPerChunk) = some rest := by
        have sliced := sliceRange_append packed.flatten rest []
        rwa [List.append_nil, packedLength, raw] at sliced
      rw [slice]
      simp only [rawReads raw, split, ne_eq, not_true_eq_false, if_false]
    · -- packed: the buffer has a chunk of words after the whole chunks
      rw [if_neg fun both => raw (by rw [List.length_append, packedLength] at both; omega)]
      obtain ⟨enough, unpacked⟩ := packedReads raw
      have slice : sliceRange (packed.flatten ++ rest) (values.length / elemsPerChunk * wordsPerChunk)
          (values.length / elemsPerChunk * wordsPerChunk + wordsPerChunk) = some (rest.take wordsPerChunk) := by
        have sliced := sliceRange_append packed.flatten (rest.take wordsPerChunk) (rest.drop wordsPerChunk)
        rwa [List.append_assoc, List.take_append_drop, packedLength, List.length_take,
          Nat.min_eq_left enough] at sliced
      simp only [slice, unpacked, split, ne_eq, not_true_eq_false, if_false]
  · -- no tail: the whole chunks are all the values
    have ends : values.length / elemsPerChunk * elemsPerChunk = values.length := by
      rw [Nat.mul_comm]
      omega
    rw [if_neg remains, ends, List.take_length]
    simp only [ne_eq, not_true_eq_false, if_false]

theorem numWholeChunks_eq (length : Nat) :
    (if length % elemsPerChunk ≠ 0 then divCeil length elemsPerChunk - 1 else divCeil length elemsPerChunk) =
      length / elemsPerChunk := by
  unfold divCeil
  rw [elemsPerChunk_eq]
  split_ifs <;> omega

/-- The encoder packs the whole chunks, then writes a tail that reads back:
nothing when the values end on a chunk, else the tail padded and packed when
padding costs less than packing saves, or the tail raw. -/
theorem bitpackOutOfLine_eq (word : wordBits ∈ [8, 16, 32, 64]) (narrower : width < wordBits)
    (inverts : packing.Inverts wordBits) {values : List Nat} (small : ∀ value ∈ values, value < 2 ^ width)
    {bitsPerValue : UInt64} (typed : bitsPerValue.toNat = wordBits) (count : UInt64) :
    ∃ rest, bitpackOutOfLine packing wordBits ⟨bitsPerValue, encodeWords (wordBits / 8) values, count⟩ width =
        some (encodeWords (wordBits / 8) (((wholeChunks values).map fun chunk =>
          packing.uncheckedPack wordBits width chunk (divCeil (elemsPerChunk * width) wordBits)).flatten ++ rest)) ∧
      (∀ word ∈ rest, word < 2 ^ wordBits) ∧
      TailReads packing wordBits width (divCeil (elemsPerChunk * width) wordBits) values rest := by
  obtain ⟨bytes, range, divides, atMost⟩ := wordBits_facts word
  have wider : 2 ^ width < 2 ^ wordBits := Nat.pow_lt_pow_right (by decide) narrower
  have valuesFit : ∀ value ∈ values, value < 256 ^ (wordBits / 8) :=
    fun value member => range ▸ Nat.lt_trans (small value member) wider
  unfold bitpackOutOfLine
  simp only [borrowToTypedWords_encodeWords bytes valuesFit, typed, packedWordsPerChunk_eq (by omega : width < 2 ^ 54),
    numWholeChunks_eq, packWholeChunks_eq, Option.bind_eq_bind, Option.bind]
  have whole := Nat.div_add_mod' values.length elemsPerChunk
  have below := Nat.mod_lt values.length (show 0 < elemsPerChunk by decide)
  by_cases ends : values.length % elemsPerChunk = 0
  · -- the values end on a chunk: nothing follows the whole chunks
    refine ⟨[], ?_, fun _ member => absurd member List.not_mem_nil, fun remains => absurd ends (by omega)⟩
    rw [if_pos (not_not.mpr ends), List.append_nil]
    rfl
  · set remainingItems := values.length % elemsPerChunk
    have remaining : values.length - values.length / elemsPerChunk * elemsPerChunk = remainingItems := by omega
    have savings : 0 < wordBits - width := by omega
    have tailLength : (values.drop (values.length / elemsPerChunk * elemsPerChunk)).length = remainingItems := by
      rw [List.length_drop, remaining]
    have padding : width * (elemsPerChunk - remainingItems) < 2 ^ 64 := by
      have : width * (elemsPerChunk - remainingItems) ≤ 64 * 1024 :=
        Nat.mul_le_mul (by omega) (by rw [elemsPerChunk_eq]; omega)
      omega
    have packSavings : saturateUsize ((wordBits - width) * remainingItems) = (wordBits - width) * remainingItems := by
      have : (wordBits - width) * remainingItems ≤ 64 * 1024 :=
        Nat.mul_le_mul (by omega) (by rw [elemsPerChunk_eq] at below; omega)
      rw [saturateUsize, Nat.min_eq_left (by omega)]
    rw [if_neg (by omega), remaining, debugMul_of_lt padding]
    simp only [packSavings, Nat.ne_of_gt savings, or_false, if_neg ends]
    set tail := values.drop (values.length / elemsPerChunk * elemsPerChunk)
    by_cases cheaper : width * (elemsPerChunk - remainingItems) < (wordBits - width) * remainingItems
    · -- padded and packed: fewer words than the tail has values, so not read as raw
      set wordsPerChunk := divCeil (elemsPerChunk * width) wordBits
      have exact : wordBits * wordsPerChunk = elemsPerChunk * width := by
        show wordBits * divCeil (elemsPerChunk * width) wordBits = _
        rw [divCeil_of_dvd (Dvd.dvd.mul_right divides width), Nat.mul_div_cancel' (Dvd.dvd.mul_right divides width)]
      have fewer : wordsPerChunk < remainingItems := by
        have padded : width * (elemsPerChunk - remainingItems) + width * remainingItems = elemsPerChunk * width := by
          rw [← Nat.mul_add, Nat.sub_add_cancel (Nat.le_of_lt below), Nat.mul_comm]
        have saved : (wordBits - width) * remainingItems + width * remainingItems = wordBits * remainingItems := by
          rw [← Nat.add_mul, Nat.sub_add_cancel (Nat.le_of_lt narrower)]
        exact Nat.lt_of_mul_lt_mul_left (show wordBits * wordsPerChunk < wordBits * remainingItems by omega)
      set lastChunk := tail ++ List.replicate (elemsPerChunk - remainingItems) 0
      have chunkLength : lastChunk.length = elemsPerChunk := by
        rw [List.length_append, tailLength, List.length_replicate]
        omega
      have chunkSmall : ∀ value ∈ lastChunk, value < 2 ^ width := by
        intro value member
        rcases List.mem_append.mp member with inTail | inPadding
        · exact small value (List.mem_of_mem_drop inTail)
        · rw [List.eq_of_mem_replicate inPadding]
          exact Nat.two_pow_pos width
      have packedLength := packing.length_uncheckedPack wordBits width lastChunk wordsPerChunk
      refine ⟨packing.uncheckedPack wordBits width lastChunk wordsPerChunk, by rw [if_pos cheaper]; rfl,
        packing.lt_of_mem_uncheckedPack _ _ _ _, fun _ => ⟨fun same => absurd (packedLength ▸ same) (by omega),
          fun _ => ⟨Nat.le_of_eq packedLength.symm, ?_⟩⟩⟩
      rw [List.take_of_length_le (Nat.le_of_eq packedLength), inverts width lastChunk narrower chunkLength chunkSmall,
        List.take_left' tailLength]
    · -- raw: as many words as the tail has values
      refine ⟨tail, by rw [if_neg cheaper]; rfl,
        fun value member => Nat.lt_trans (small value (List.mem_of_mem_drop member)) wider,
        fun _ => ⟨fun _ => rfl, fun different => absurd tailLength different⟩⟩

end RoundTrip

/-- Out-of-line bitpacking gives back every block of values narrower than the
compressed width, whichever layout the compressor chose for the tail: the
decompressor tells the layouts apart by the tail's length alone. -/
theorem OutOfLineBitpacking.decompress_compress (packing : BitPacking) {compressedBitWidth uncompressedBitWidth : UInt64}
    (word : uncompressedBitWidth ∈ wordWidths) (narrower : compressedBitWidth < uncompressedBitWidth)
    (inverts : packing.Inverts uncompressedBitWidth.toNat) {values : List Nat}
    (small : ∀ value ∈ values, value < 2 ^ compressedBitWidth.toNat) {numValues : UInt64}
    (counted : values.length = numValues.toNat) :
    let block : DataBlock :=
      .fixedWidth ⟨uncompressedBitWidth, encodeWords (uncompressedBitWidth.toNat / 8) values, numValues⟩
    let bitpacking := new compressedBitWidth uncompressedBitWidth
    ∃ compressed, bitpacking.compress packing block = some compressed ∧
      bitpacking.decompress packing compressed numValues = some block := by
  intro block bitpacking
  have wordNat : uncompressedBitWidth.toNat ∈ [8, 16, 32, 64] := by
    simp only [wordWidths, List.mem_cons, List.mem_nil_iff, or_false] at word
    rcases word with rfl | rfl | rfl | rfl <;> decide
  have narrowerNat := UInt64.lt_iff_toNat_lt.mp narrower
  obtain ⟨rest, packed, restFits, tail⟩ := bitpackOutOfLine_eq wordNat narrowerNat inverts small rfl numValues
  refine ⟨_, by simp only [block, bitpacking, compress, new, if_pos word]; exact packed, ?_⟩
  -- the compressed words fill whole words of the uncompressed width
  have whole : ∀ words, (encodeWords (uncompressedBitWidth.toNat / 8) words).length %
      (uncompressedBitWidth.toNat / 8) = 0 := fun words => by
    rw [length_encodeWords, Nat.mul_mod_right]
  simp only [bitpacking, decompress, new, word, not_true_eq_false, if_false, whole, ne_eq, Option.bind_eq_bind,
    Option.bind]
  rw [← counted, unpackOutOfLine_eq wordNat narrowerNat inverts small restFits tail rfl, counted,
    UInt64.ofNat_toNat]
  rfl

theorem decompress_compress_at_twoValues :
    (8 : UInt64) ∈ OutOfLineBitpacking.wordWidths ∧ (3 : UInt64) < 8 ∧ digitPacking.Inverts (8 : UInt64).toNat ∧
      (∀ value ∈ [5, 1], value < 2 ^ (3 : UInt64).toNat) ∧ [5, 1].length = (2 : UInt64).toNat ∧
    ∃ compressed,
      (OutOfLineBitpacking.new 3 8).compress digitPacking (.fixedWidth ⟨8, encodeWords 1 [5, 1], 2⟩) =
        some compressed ∧
      (OutOfLineBitpacking.new 3 8).decompress digitPacking compressed 2 =
        some (.fixedWidth ⟨8, encodeWords 1 [5, 1], 2⟩) :=
  ⟨by decide, by decide, digitPacking_inverts (by decide), by decide, rfl,
    OutOfLineBitpacking.decompress_compress digitPacking (by decide) (by decide) (digitPacking_inverts (by decide))
      (by decide) rfl⟩

end Lance.Encoding
