import Lance.Library.LittleEndian
import Lance.Library.PrefixCodec
import Lance.RowIds.Segment

/-! The protobuf messages of `rowids.proto` as prost generates them, the
conversions between them and the row-id types, and `write_row_ids` /
`read_row_ids`. prost's encoder and decoder are a parameter, with the law that
decoding what was encoded gives the message back. Offsets and values travel as
little-endian words packed into byte strings; a bitmap travels as its bytes
alone, and the reader rebuilds its length from the range as
`(end - start) as usize`. A conversion is `none` where it panics and an `error`
where it returns an `Err`. -/

namespace Lance.RowIds

open Lance.Library

namespace Pb

namespace EncodedU64Array

structure U16Array where
  base : UInt64
  offsets : List UInt8
  deriving DecidableEq, Repr

structure U32Array where
  base : UInt64
  offsets : List UInt8
  deriving DecidableEq, Repr

structure U64Array where
  values : List UInt8
  deriving DecidableEq, Repr

/-- The `oneof array` of `EncodedU64Array`. -/
inductive Array where
  | u16Array (array : U16Array)
  | u32Array (array : U32Array)
  | u64Array (array : U64Array)
  deriving DecidableEq, Repr

end EncodedU64Array

structure EncodedU64Array where
  array : Option EncodedU64Array.Array
  deriving DecidableEq, Repr

namespace U64Segment

structure Range where
  start : UInt64
  stop : UInt64
  deriving DecidableEq, Repr

structure RangeWithHoles where
  start : UInt64
  stop : UInt64
  holes : Option EncodedU64Array
  deriving DecidableEq, Repr

structure RangeWithBitmap where
  start : UInt64
  stop : UInt64
  bitmap : List UInt8
  deriving DecidableEq, Repr

/-- The `oneof segment` of `U64Segment`. -/
inductive Segment where
  | range (range : Range)
  | rangeWithHoles (range : RangeWithHoles)
  | rangeWithBitmap (range : RangeWithBitmap)
  | sortedArray (array : EncodedU64Array)
  | array (array : EncodedU64Array)
  deriving DecidableEq, Repr

end U64Segment

structure U64Segment where
  segment : Option U64Segment.Segment
  deriving DecidableEq, Repr

structure RowIdSequence where
  segments : List U64Segment
  deriving DecidableEq, Repr

end Pb

/-- prost's `Message` on one message type: `encode_to_vec`, `decode`, and
decoding what was encoded gives the message back. -/
structure Message (Msg : Type) where
  encodeToVec : Msg → List UInt8
  decode : List UInt8 → Except String Msg
  decode_encodeToVec : ∀ msg, decode (encodeToVec msg) = .ok msg

/-- A panic of the source. -/
def abort {α : Type} : ExceptT String Option α := ExceptT.mk none

namespace EncodedU64Array

/-- `From<EncodedU64Array> for pb::EncodedU64Array`: the words flattened into
their little-endian bytes. -/
def toPb : EncodedU64Array → Pb.EncodedU64Array
  | u16 base offsets => ⟨some (.u16Array ⟨base, encodeWords 2 (offsets.map UInt16.toNat)⟩)⟩
  | u32 base offsets => ⟨some (.u32Array ⟨base, encodeWords 4 (offsets.map UInt32.toNat)⟩)⟩
  | u64 values => ⟨some (.u64Array ⟨encodeWords 8 (values.map UInt64.toNat)⟩)⟩

/-- `TryFrom<pb::EncodedU64Array>`: a byte count that is not a whole number of
words fails an `assert!`. -/
def tryFrom (pb : Pb.EncodedU64Array) : ExceptT String Option EncodedU64Array :=
  match pb.array with
  | some (.u16Array ⟨base, offsets⟩) =>
    if offsets.length % 2 = 0 then pure (u16 base ((decodeWords 2 offsets).map UInt16.ofNat)) else abort
  | some (.u32Array ⟨base, offsets⟩) =>
    if offsets.length % 4 = 0 then pure (u32 base ((decodeWords 4 offsets).map UInt32.ofNat)) else abort
  | some (.u64Array ⟨values⟩) =>
    if values.length % 8 = 0 then pure (u64 ((decodeWords 8 values).map UInt64.ofNat)) else abort
  | none => throw "missing array type"

end EncodedU64Array

namespace U64Segment

/-- `From<U64Segment> for pb::U64Segment`: a bitmap keeps its bytes and drops
its length. -/
def toPb : U64Segment → Pb.U64Segment
  | range span => ⟨some (.range ⟨span.start, span.stop⟩)⟩
  | rangeWithHoles span holes => ⟨some (.rangeWithHoles ⟨span.start, span.stop, some holes.toPb⟩)⟩
  | rangeWithBitmap span bitmap => ⟨some (.rangeWithBitmap ⟨span.start, span.stop, bitmap.data⟩)⟩
  | sortedArray encoded => ⟨some (.sortedArray encoded.toPb)⟩
  | array encoded => ⟨some (.array encoded.toPb)⟩

def tryFrom (pb : Pb.U64Segment) : ExceptT String Option U64Segment :=
  match pb.segment with
  | some (.range ⟨start, stop⟩) => pure (range ⟨start, stop⟩)
  | some (.rangeWithHoles ⟨start, stop, holes⟩) =>
    match holes with
    | none => throw "missing hole"
    | some holes => do
      let holes ← EncodedU64Array.tryFrom holes
      pure (rangeWithHoles ⟨start, stop⟩ holes)
  | some (.rangeWithBitmap ⟨start, stop, bitmap⟩) => do
    let len ← liftM (debugSub stop.toNat start.toNat)
    pure (rangeWithBitmap ⟨start, stop⟩ ⟨bitmap, len⟩)
  | some (.sortedArray encoded) => do
    let encoded ← EncodedU64Array.tryFrom encoded
    pure (sortedArray encoded)
  | some (.array encoded) => do
    let encoded ← EncodedU64Array.tryFrom encoded
    pure (array encoded)
  | none => throw "missing segment type"

end U64Segment

namespace RowIdSequence

def toPb (sequence : RowIdSequence) : Pb.RowIdSequence := ⟨sequence.segments.map U64Segment.toPb⟩

/-- `TryFrom<pb::RowIdSequence>`: the segments in order, stopping at the first
that fails. -/
def tryFrom (pb : Pb.RowIdSequence) : ExceptT String Option RowIdSequence := do
  let segments ← pb.segments.mapM U64Segment.tryFrom
  pure ⟨segments⟩

end RowIdSequence

def writeRowIds (message : Message Pb.RowIdSequence) (sequence : RowIdSequence) : List UInt8 :=
  message.encodeToVec sequence.toPb

def readRowIds (message : Message Pb.RowIdSequence) (reader : List UInt8) :
    ExceptT String Option RowIdSequence := do
  let pbSequence ← ExceptT.mk (some (message.decode reader))
  RowIdSequence.tryFrom pbSequence

/-! ### An encoding of the messages

prost's wire format is not modelled; the prefix codecs of the library, put
together along the shapes of the messages, are one encoding that meets the law
of `Message`, so the theorems over every encoding are not about none. -/

namespace Pb

open PrefixCodec

/-- A `bytes` field. -/
def bytesCodec : PrefixCodec (List UInt8) := list byte

def EncodedU64Array.U16Array.codec : PrefixCodec EncodedU64Array.U16Array :=
  (pair word64 bytesCodec).map (fun fields => ⟨fields.1, fields.2⟩) (fun array => (array.base, array.offsets))
    (fun _ => rfl)

def EncodedU64Array.U32Array.codec : PrefixCodec EncodedU64Array.U32Array :=
  (pair word64 bytesCodec).map (fun fields => ⟨fields.1, fields.2⟩) (fun array => (array.base, array.offsets))
    (fun _ => rfl)

def EncodedU64Array.U64Array.codec : PrefixCodec EncodedU64Array.U64Array :=
  bytesCodec.map (fun values => ⟨values⟩) (fun array => array.values) (fun _ => rfl)

def EncodedU64Array.Array.codec : PrefixCodec EncodedU64Array.Array :=
  (sum EncodedU64Array.U16Array.codec (sum EncodedU64Array.U32Array.codec EncodedU64Array.U64Array.codec)).map
    (fun
      | .inl array => .u16Array array
      | .inr (.inl array) => .u32Array array
      | .inr (.inr array) => .u64Array array)
    (fun
      | .u16Array array => .inl array
      | .u32Array array => .inr (.inl array)
      | .u64Array array => .inr (.inr array))
    (fun array => by cases array <;> rfl)

def EncodedU64Array.codec : PrefixCodec EncodedU64Array :=
  (option EncodedU64Array.Array.codec).map (fun array => ⟨array⟩) (fun message => message.array) (fun _ => rfl)

def U64Segment.Range.codec : PrefixCodec U64Segment.Range :=
  (pair word64 word64).map (fun fields => ⟨fields.1, fields.2⟩) (fun range => (range.start, range.stop))
    (fun _ => rfl)

def U64Segment.RangeWithHoles.codec : PrefixCodec U64Segment.RangeWithHoles :=
  (pair word64 (pair word64 (option EncodedU64Array.codec))).map
    (fun fields => ⟨fields.1, fields.2.1, fields.2.2⟩) (fun range => (range.start, range.stop, range.holes))
    (fun _ => rfl)

def U64Segment.RangeWithBitmap.codec : PrefixCodec U64Segment.RangeWithBitmap :=
  (pair word64 (pair word64 bytesCodec)).map
    (fun fields => ⟨fields.1, fields.2.1, fields.2.2⟩) (fun range => (range.start, range.stop, range.bitmap))
    (fun _ => rfl)

def U64Segment.Segment.codec : PrefixCodec U64Segment.Segment :=
  (sum U64Segment.Range.codec (sum U64Segment.RangeWithHoles.codec
    (sum U64Segment.RangeWithBitmap.codec (sum EncodedU64Array.codec EncodedU64Array.codec)))).map
    (fun
      | .inl span => .range span
      | .inr (.inl span) => .rangeWithHoles span
      | .inr (.inr (.inl span)) => .rangeWithBitmap span
      | .inr (.inr (.inr (.inl encoded))) => .sortedArray encoded
      | .inr (.inr (.inr (.inr encoded))) => .array encoded)
    (fun
      | .range span => .inl span
      | .rangeWithHoles span => .inr (.inl span)
      | .rangeWithBitmap span => .inr (.inr (.inl span))
      | .sortedArray encoded => .inr (.inr (.inr (.inl encoded)))
      | .array encoded => .inr (.inr (.inr (.inr encoded))))
    (fun segment => by cases segment <;> rfl)

def U64Segment.codec : PrefixCodec U64Segment :=
  (option U64Segment.Segment.codec).map (fun segment => ⟨segment⟩) (fun message => message.segment) (fun _ => rfl)

def RowIdSequence.codec : PrefixCodec RowIdSequence :=
  (list U64Segment.codec).map (fun segments => ⟨segments⟩) (fun message => message.segments) (fun _ => rfl)

end Pb

def Message.ofPrefixCodec {Msg : Type} (codec : PrefixCodec Msg) : Message Msg where
  encodeToVec := codec.encode
  decode bytes :=
    match codec.decode bytes with
    | some (msg, []) => .ok msg
    | _ => .error "failed to decode message"
  decode_encodeToVec msg := by
    have whole := codec.decode_encode msg []
    rw [List.append_nil] at whole
    simp only [whole]

def rowIdSequenceMessage : Message Pb.RowIdSequence := Message.ofPrefixCodec Pb.RowIdSequence.codec

/-! ### Reading back what was written -/

namespace EncodedU64Array

theorem tryFrom_toPb (array : EncodedU64Array) : tryFrom array.toPb = pure array := by
  cases array with
  | u16 base offsets =>
    have words := decodeWords_encodeWords_map (by decide : 0 < 2) UInt16.toNat UInt16.ofNat UInt16.toNat_lt
      (fun _ => UInt16.ofNat_toNat) offsets
    simp only [toPb, tryFrom, length_encodeWords, Nat.mul_mod_right, ↓reduceIte, words]
  | u32 base offsets =>
    have words := decodeWords_encodeWords_map (by decide : 0 < 4) UInt32.toNat UInt32.ofNat UInt32.toNat_lt
      (fun _ => UInt32.ofNat_toNat) offsets
    simp only [toPb, tryFrom, length_encodeWords, Nat.mul_mod_right, ↓reduceIte, words]
  | u64 values =>
    have words := decodeWords_encodeWords_map (by decide : 0 < 8) UInt64.toNat UInt64.ofNat UInt64.toNat_lt
      (fun _ => UInt64.ofNat_toNat) values
    simp only [toPb, tryFrom, length_encodeWords, Nat.mul_mod_right, ↓reduceIte, words]

end EncodedU64Array

namespace U64Segment

/-- A segment comes back unchanged when its bitmap, if it has one, is as long
as the reader makes it. -/
theorem tryFrom_toPb (segment : U64Segment) (lenMatches : segment.BitmapLenMatches) :
    tryFrom segment.toPb = pure segment := by
  cases segment with
  | range span => rfl
  | rangeWithHoles span holes => simp [toPb, tryFrom, EncodedU64Array.tryFrom_toPb]
  | rangeWithBitmap span bitmap =>
    simp only [BitmapLenMatches] at lenMatches
    simp only [toPb, tryFrom, lenMatches]
    rfl
  | sortedArray encoded => simp [toPb, tryFrom, EncodedU64Array.tryFrom_toPb]
  | array encoded => simp [toPb, tryFrom, EncodedU64Array.tryFrom_toPb]

end U64Segment

namespace RowIdSequence

theorem tryFrom_toPb (sequence : RowIdSequence)
    (lenMatches : ∀ segment ∈ sequence.segments, segment.BitmapLenMatches) :
    tryFrom sequence.toPb = pure sequence := by
  -- the segments one by one: each comes back, so the run never stops
  have each : ∀ segments : List U64Segment, (∀ segment ∈ segments, segment.BitmapLenMatches) →
      (segments.map U64Segment.toPb).mapM U64Segment.tryFrom = pure segments := by
    intro segments
    induction segments with
    | nil => intro _; rfl
    | cons segment rest ih =>
      intro matching
      simp [U64Segment.tryFrom_toPb segment (matching segment List.mem_cons_self),
        ih fun other member => matching other (List.mem_cons_of_mem _ member)]
  simp [tryFrom, toPb, each sequence.segments lenMatches]

end RowIdSequence

theorem readRowIds_encodeToVec (message : Message Pb.RowIdSequence) (pb : Pb.RowIdSequence) :
    readRowIds message (message.encodeToVec pb) = RowIdSequence.tryFrom pb := by
  have decoded : (ExceptT.mk (some (message.decode (message.encodeToVec pb))) :
      ExceptT String Option Pb.RowIdSequence) = pure pb := by
    rw [message.decode_encodeToVec]
    rfl
  rw [readRowIds, decoded, pure_bind]

theorem readRowIds_writeRowIds_eq (message : Message Pb.RowIdSequence) (sequence : RowIdSequence) :
    readRowIds message (writeRowIds message sequence) = RowIdSequence.tryFrom sequence.toPb :=
  readRowIds_encodeToVec message sequence.toPb

/-- Writing a sequence and reading it back gives the sequence again, segment
for segment, whenever every bitmap is as long as the reader makes it. -/
theorem readRowIds_writeRowIds (message : Message Pb.RowIdSequence) (sequence : RowIdSequence)
    (lenMatches : ∀ segment ∈ sequence.segments, segment.BitmapLenMatches) :
    readRowIds message (writeRowIds message sequence) = pure sequence := by
  rw [readRowIds_writeRowIds_eq, RowIdSequence.tryFrom_toPb sequence lenMatches]

/-- The sequence of `test_write_read_row_ids`: every kind of segment. -/
def mixedSegments : RowIdSequence :=
  ⟨[.range ⟨0, 20⟩, .range ⟨30, 100⟩, .rangeWithHoles ⟨100, 200⟩ (.u64 [104, 108, 150]),
    .rangeWithBitmap ⟨200, 300⟩ (Bitmap.newEmpty 100), .sortedArray (.u16 200 [1, 2, 3]),
    .array (.u64 [1, 2, 3])]⟩

theorem readRowIds_writeRowIds_at_mixedSegments :
    (∀ segment ∈ mixedSegments.segments, segment.BitmapLenMatches) ∧
      readRowIds rowIdSequenceMessage (writeRowIds rowIdSequenceMessage mixedSegments) = pure mixedSegments :=
  ⟨by decide, readRowIds_writeRowIds rowIdSequenceMessage mixedSegments (by decide)⟩

/-! ### Messages the reader does not reject -/

def raggedOffsets : Pb.RowIdSequence := ⟨[⟨some (.sortedArray ⟨some (.u16Array ⟨0, [1]⟩)⟩)⟩]⟩

def shortBitmap : Pb.RowIdSequence := ⟨[⟨some (.rangeWithBitmap ⟨0, 100, []⟩)⟩]⟩

/-- Whatever the encoding, the bytes of a ragged `u16` array make `read_row_ids`
panic on its `assert!`, and a bitmap shorter than its range is accepted as it
is, so that iterating the sequence read indexes past the bitmap's bytes. -/
theorem readRowIds_panics_or_keeps_short_bitmap (message : Message Pb.RowIdSequence) :
    readRowIds message (message.encodeToVec raggedOffsets) = abort ∧
      readRowIds message (message.encodeToVec shortBitmap) = pure ⟨[.rangeWithBitmap ⟨0, 100⟩ ⟨[], 100⟩]⟩ ∧
      (U64Segment.rangeWithBitmap ⟨0, 100⟩ ⟨[], 100⟩).iter = none := by
  refine ⟨?_, ?_, by decide⟩
  · rw [readRowIds_encodeToVec]
    rfl
  · rw [readRowIds_encodeToVec]
    rfl

end Lance.RowIds
