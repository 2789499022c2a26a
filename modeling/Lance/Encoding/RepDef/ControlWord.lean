import Lance.Library.LittleEndian

/-! Control words (`repdef.rs`): the repetition and the definition level of
each item packed into one little-endian word of one, two or four bytes, the
rep level above the def level, by one of seven iterators chosen by the bits
the maximum levels need; and `ControlWordParser`, which reads the levels of
an item, and what they say of it, back from its word.

The word arithmetic is that of a release build: `UIntN` wraps, and masks a
shift amount to the width, as Rust does there. `log_2_ceil` (`lance-core`,
`utils/bit.rs`) is modelled with its table. -/

namespace Lance.Encoding.RepDef

open Lance.Library

/-! ### `log_2_ceil` and the widths of the levels -/

def logTable256 : List UInt8 :=
  [0, 1, 2, 2, 3, 3, 3, 3, 4, 4, 4, 4, 4, 4, 4, 4, 5, 5, 5, 5, 5, 5, 5, 5, 5, 5, 5, 5, 5, 5, 5, 5,
    6, 6, 6, 6, 6, 6, 6, 6, 6, 6, 6, 6, 6, 6, 6, 6, 6, 6, 6, 6, 6, 6, 6, 6, 6, 6, 6, 6, 6, 6, 6, 6,
    7, 7, 7, 7, 7, 7, 7, 7, 7, 7, 7, 7, 7, 7, 7, 7, 7, 7, 7, 7, 7, 7, 7, 7, 7, 7, 7, 7, 7, 7, 7, 7,
    7, 7, 7, 7, 7, 7, 7, 7, 7, 7, 7, 7, 7, 7, 7, 7, 7, 7, 7, 7, 7, 7, 7, 7, 7, 7, 7, 7, 7, 7, 7, 7,
    8, 8, 8, 8, 8, 8, 8, 8, 8, 8, 8, 8, 8, 8, 8, 8, 8, 8, 8, 8, 8, 8, 8, 8, 8, 8, 8, 8, 8, 8, 8, 8,
    8, 8, 8, 8, 8, 8, 8, 8, 8, 8, 8, 8, 8, 8, 8, 8, 8, 8, 8, 8, 8, 8, 8, 8, 8, 8, 8, 8, 8, 8, 8, 8,
    8, 8, 8, 8, 8, 8, 8, 8, 8, 8, 8, 8, 8, 8, 8, 8, 8, 8, 8, 8, 8, 8, 8, 8, 8, 8, 8, 8, 8, 8, 8, 8,
    8, 8, 8, 8, 8, 8, 8, 8, 8, 8, 8, 8, 8, 8, 8, 8, 8, 8, 8, 8, 8, 8, 8, 8, 8, 8, 8, 8, 8, 8, 8, 8]

/-- `log_2_ceil`: the bits `val` needs, from the table at its highest nonzero
byte. The source asserts that `val` is positive; here that is a hypothesis. -/
def log2Ceil (val : UInt32) (_positive : 0 < val) : UInt32 :=
  let upperHalf := val >>> 16
  if upperHalf = 0 then
    let thirdQuarter := val >>> 8
    if thirdQuarter = 0 then (logTable256.getD val.toNat 0).toUInt32
    else (logTable256.getD thirdQuarter.toNat 0).toUInt32 + 8
  else
    let firstQuarter := upperHalf >>> 8
    if firstQuarter = 0 then 16 + (logTable256.getD upperHalf.toNat 0).toUInt32
    else 24 + (logTable256.getD firstQuarter.toNat 0).toUInt32

/-- `get_mask`: the low `width` bits of a `u16`. -/
def getMask (width : UInt16) : UInt16 := ((1 : UInt16) <<< width) - 1

theorem toUInt32_pos {level : UInt16} (nonzero : ¬level = 0) : 0 < level.toUInt32 := by
  rw [UInt32.lt_iff_toNat_lt, UInt16.toNat_toUInt32]
  exact Nat.pos_of_ne_zero fun zero => nonzero (UInt16.toNat_inj.mp zero)

/-- `rep_width` and `def_width`: the bits a level up to `maxLevel` takes in a
control word, none when the maximum is zero. -/
def levelWidth (maxLevel : UInt16) : UInt16 :=
  if zero : maxLevel = 0 then 0 else (log2Ceil maxLevel.toUInt32 (toUInt32_pos zero)).toUInt16

/-- `rep_mask` and `def_mask`. -/
def levelMask (maxLevel : UInt16) : UInt16 := if maxLevel = 0 then 0 else getMask (levelWidth maxLevel)

/-! ### The iterators -/

/-- `ControlWordDesc`: what the word of an item says of it. -/
structure ControlWordDesc where
  isNewRow : Bool
  isVisible : Bool
  isValidItem : Bool
  deriving DecidableEq, Repr

/-- `BinaryControlWordIterator`: the pairs of levels still to write. -/
structure BinaryControlWordIterator where
  repdef : List (UInt16 × UInt16)
  defWidth : Nat
  maxRep : UInt16
  maxVisibleDef : UInt16
  repMask : UInt16
  defMask : UInt16
  bitsRep : UInt8
  bitsDef : UInt8
  deriving DecidableEq, Repr

namespace BinaryControlWordIterator

variable (iter : BinaryControlWordIterator)

/-- The word of `append_next` on `u8`: the masked rep level cut to a byte and
shifted over the masked def level. -/
def controlWord8 (next : UInt16 × UInt16) : UInt8 :=
  ((next.1 &&& iter.repMask).toUInt8 <<< UInt8.ofNat iter.defWidth) + (next.2 &&& iter.defMask).toUInt8

/-- The word of `append_next` on `u16`. -/
def controlWord16 (next : UInt16 × UInt16) : UInt16 :=
  ((next.1 &&& iter.repMask) <<< UInt16.ofNat iter.defWidth) + (next.2 &&& iter.defMask)

/-- The word of `append_next` on `u32`. -/
def controlWord32 (next : UInt16 × UInt16) : UInt32 :=
  ((next.1 &&& iter.repMask).toUInt32 <<< UInt32.ofNat iter.defWidth) + (next.2 &&& iter.defMask).toUInt32

/-- What every binary `append_next` says of a pair of levels. -/
def describe (next : UInt16 × UInt16) : ControlWordDesc :=
  ⟨next.1 == iter.maxRep, decide (next.2 ≤ iter.maxVisibleDef), next.2 == 0⟩

/-- `append_next` of a binary iterator whose words `bytes` writes: the next
pair of levels, or `None` once they are used up. -/
def appendNextWith (bytes : UInt16 × UInt16 → List UInt8) (buf : List UInt8) :
    Option ControlWordDesc × BinaryControlWordIterator × List UInt8 :=
  match iter.repdef with
  | [] => (none, iter, buf)
  | next :: rest => (some (iter.describe next), { iter with repdef := rest }, buf ++ bytes next)

def appendNext8 (buf : List UInt8) : Option ControlWordDesc × BinaryControlWordIterator × List UInt8 :=
  iter.appendNextWith (fun next => [iter.controlWord8 next]) buf

def appendNext16 (buf : List UInt8) : Option ControlWordDesc × BinaryControlWordIterator × List UInt8 :=
  iter.appendNextWith (fun next => toLeBytes 2 (iter.controlWord16 next).toNat) buf

def appendNext32 (buf : List UInt8) : Option ControlWordDesc × BinaryControlWordIterator × List UInt8 :=
  iter.appendNextWith (fun next => toLeBytes 4 (iter.controlWord32 next).toNat) buf

end BinaryControlWordIterator

/-- `UnaryControlWordIterator`: the levels of the one kind there is, still to
write. -/
structure UnaryControlWordIterator where
  repdef : List UInt16
  levelMask : UInt16
  bitsRep : UInt8
  bitsDef : UInt8
  maxRep : UInt16
  deriving DecidableEq, Repr

namespace UnaryControlWordIterator

variable (iter : UnaryControlWordIterator)

/-- What every unary `append_next` says of a level: with one kind of level
there are no invisible items. -/
def describe (next : UInt16) : ControlWordDesc :=
  ⟨iter.maxRep == 0 || next == iter.maxRep, true, next == 0 || iter.bitsDef == 0⟩

/-- `append_next` on `u8` or `u32`: the level as `read` takes it is described,
and `bytes` writes its word. -/
def appendNextWith (read : UInt16 → UInt16) (bytes : UInt16 → List UInt8) (buf : List UInt8) :
    Option ControlWordDesc × UnaryControlWordIterator × List UInt8 :=
  match iter.repdef with
  | [] => (none, iter, buf)
  | level :: rest => (some (iter.describe (read level)), { iter with repdef := rest }, buf ++ bytes (read level))

/-- `append_next` on `u8`, which describes the level before the mask. -/
def appendNext8 (buf : List UInt8) : Option ControlWordDesc × UnaryControlWordIterator × List UInt8 :=
  iter.appendNextWith id (fun next => [(next &&& iter.levelMask).toUInt8]) buf

/-- `append_next` on `u16`, which unwraps the next level: past the last one it
panics (none) where every other iterator returns `None`. -/
def appendNext16 (buf : List UInt8) : Option (Option ControlWordDesc × UnaryControlWordIterator × List UInt8) :=
  match iter.repdef with
  | [] => none
  | level :: rest =>
    let next := level &&& iter.levelMask
    some (some (iter.describe next), { iter with repdef := rest }, buf ++ toLeBytes 2 next.toNat)

/-- `append_next` on `u32`: the masked level widened to a `u32`, which
describes the level as its `u16` does. -/
def appendNext32 (buf : List UInt8) : Option ControlWordDesc × UnaryControlWordIterator × List UInt8 :=
  iter.appendNextWith (· &&& iter.levelMask) (fun next => toLeBytes 4 next.toUInt32.toNat) buf

end UnaryControlWordIterator

/-- `NilaryControlWordIterator`: no levels, only a count of items. -/
structure NilaryControlWordIterator where
  len : Nat
  idx : Nat
  deriving DecidableEq, Repr

/-- `NilaryControlWordIterator::append_next`: every item starts a row and is
valid; nothing is written. -/
def NilaryControlWordIterator.appendNext (iter : NilaryControlWordIterator) :
    Option ControlWordDesc × NilaryControlWordIterator :=
  if iter.idx = iter.len then (none, iter) else (some ⟨true, true, true⟩, { iter with idx := iter.idx + 1 })

inductive ControlWordIterator where
  | binary8 (iter : BinaryControlWordIterator)
  | binary16 (iter : BinaryControlWordIterator)
  | binary32 (iter : BinaryControlWordIterator)
  | unary8 (iter : UnaryControlWordIterator)
  | unary16 (iter : UnaryControlWordIterator)
  | unary32 (iter : UnaryControlWordIterator)
  | nilary (iter : NilaryControlWordIterator)
  deriving DecidableEq, Repr

namespace ControlWordIterator

/-- `append_next`: what the word appended to `buf` says, or `None` once the
levels are used up, and the iterator after the call; none is a panic. -/
def appendNext : ControlWordIterator → List UInt8 →
    Option (Option ControlWordDesc × ControlWordIterator × List UInt8)
  | binary8 iter, buf => match iter.appendNext8 buf with | (desc, iter, buf) => some (desc, binary8 iter, buf)
  | binary16 iter, buf => match iter.appendNext16 buf with | (desc, iter, buf) => some (desc, binary16 iter, buf)
  | binary32 iter, buf => match iter.appendNext32 buf with | (desc, iter, buf) => some (desc, binary32 iter, buf)
  | unary8 iter, buf => match iter.appendNext8 buf with | (desc, iter, buf) => some (desc, unary8 iter, buf)
  | unary16 iter, buf => (iter.appendNext16 buf).map fun (desc, iter, buf) => (desc, unary16 iter, buf)
  | unary32 iter, buf => match iter.appendNext32 buf with | (desc, iter, buf) => some (desc, unary32 iter, buf)
  | nilary iter, buf => match iter.appendNext with | (desc, iter) => some (desc, nilary iter, buf)

/-- `count` calls of `append_next` that each write a word, as the loops over
the items of a page make them, with what each word says; none when a call
panics or finds no level left. -/
def appendCount : Nat → ControlWordIterator → List UInt8 →
    Option (List ControlWordDesc × ControlWordIterator × List UInt8)
  | 0, iter, buf => some ([], iter, buf)
  | count + 1, iter, buf =>
    match iter.appendNext buf with
    | some (some desc, iter, buf) =>
      (appendCount count iter buf).map fun (descs, iter, buf) => (desc :: descs, iter, buf)
    | _ => none

def bytesPerWord : ControlWordIterator → Nat
  | binary8 _ | unary8 _ => 1
  | binary16 _ | unary16 _ => 2
  | binary32 _ | unary32 _ => 4
  | nilary _ => 0

def bitsRep : ControlWordIterator → UInt8
  | binary8 iter | binary16 iter | binary32 iter => iter.bitsRep
  | unary8 iter | unary16 iter | unary32 iter => iter.bitsRep
  | nilary _ => 0

def bitsDef : ControlWordIterator → UInt8
  | binary8 iter | binary16 iter | binary32 iter => iter.bitsDef
  | unary8 iter | unary16 iter | unary32 iter => iter.bitsDef
  | nilary _ => 0

end ControlWordIterator

open ControlWordIterator in
/-- `build_control_word_iterator`: the word is as wide as the bits of both
maximum levels need, also when only one kind of level is present. -/
def buildControlWordIterator (rep : Option (List UInt16)) (maxRep : UInt16) (defs : Option (List UInt16))
    (maxDef maxVisibleDef : UInt16) (len : Nat) : ControlWordIterator :=
  let repWidth := levelWidth maxRep
  let repMask := levelMask maxRep
  let defWidth := levelWidth maxDef
  let defMask := levelMask maxDef
  let totalWidth := repWidth + defWidth
  match rep, defs with
  | some rep, some defs =>
    let iter : BinaryControlWordIterator := ⟨rep.zip defs, defWidth.toNat, maxRep, maxVisibleDef, repMask, defMask,
      repWidth.toUInt8, defWidth.toUInt8⟩
    if totalWidth ≤ 8 then binary8 iter else if totalWidth ≤ 16 then binary16 iter else binary32 iter
  | some levels, none =>
    let iter : UnaryControlWordIterator := ⟨levels, repMask, totalWidth.toUInt8, 0, maxRep⟩
    if totalWidth ≤ 8 then unary8 iter else if totalWidth ≤ 16 then unary16 iter else unary32 iter
  | none, some levels =>
    let iter : UnaryControlWordIterator := ⟨levels, defMask, 0, totalWidth.toUInt8, 0⟩
    if totalWidth ≤ 8 then unary8 iter else if totalWidth ≤ 16 then unary16 iter else unary32 iter
  | none, none => nilary ⟨len, 0⟩

/-! ### The parser -/

/-- The width of a control word, as `ControlWordParser::new` picks it. -/
inductive WordSize where
  | one
  | two
  | four
  deriving DecidableEq, Repr

/-- The bytes of a word of this size. -/
def WordSize.bytes : WordSize → Nat
  | one => 1
  | two => 2
  | four => 4

/-- The word at the front of `src`, as `src[0]` or `from_le_bytes` of the
first bytes reads it; none when `src` is too short, where the index panics. -/
def WordSize.read (size : WordSize) (src : List UInt8) : Option Nat := (readLe size.bytes src).map Prod.fst

/-- `ControlWordParser`: a word of both kinds of level keeps the bits to
shift the rep level down by and the mask of the def level. -/
inductive ControlWordParser where
  | both8 (bitsToShift : UInt8) (maskToApply : UInt32)
  | both16 (bitsToShift : UInt8) (maskToApply : UInt32)
  | both32 (bitsToShift : UInt8) (maskToApply : UInt32)
  | rep8
  | rep16
  | rep32
  | def8
  | def16
  | def32
  | nil
  deriving DecidableEq, Repr

namespace ControlWordParser

/-- The levels of a word of both kinds, as `parse_both` and `parse_desc_both`
cut it in the word's own width: the rep level above `bitsToShift` and the def
level under the mask, each cut to a `u16`, and whether the def level is zero. -/
def splitBoth (size : WordSize) (word : Nat) (bitsToShift : UInt8) (maskToApply : UInt32) :
    UInt16 × UInt16 × Bool :=
  match size with
  | .one =>
    let word := UInt8.ofNat word
    let defLevel := word &&& maskToApply.toUInt8
    ((word >>> bitsToShift).toUInt16, defLevel.toUInt16, defLevel == 0)
  | .two =>
    let word := UInt16.ofNat word
    let defLevel := word &&& maskToApply.toUInt16
    (word >>> bitsToShift.toUInt16, defLevel, defLevel == 0)
  | .four =>
    let word := UInt32.ofNat word
    let defLevel := word &&& maskToApply
    ((word >>> bitsToShift.toUInt32).toUInt16, defLevel.toUInt16, defLevel == 0)

def parseBoth (size : WordSize) (src : List UInt8) (dstRep dstDef : List UInt16) (bitsToShift : UInt8)
    (maskToApply : UInt32) : Option (List UInt16 × List UInt16) :=
  (size.read src).map fun word =>
    match splitBoth size word bitsToShift maskToApply with
    | (repLevel, defLevel, _) => (dstRep ++ [repLevel], dstDef ++ [defLevel])

def parseDescBoth (size : WordSize) (src : List UInt8) (bitsToShift : UInt8) (maskToApply : UInt32)
    (maxRep maxVisibleDef : UInt16) : Option ControlWordDesc :=
  (size.read src).map fun word =>
    match splitBoth size word bitsToShift maskToApply with
    | (repLevel, defLevel, validItem) => ⟨repLevel == maxRep, decide (defLevel ≤ maxVisibleDef), validItem⟩

/-- `parse_one`: the word cut to a `u16`. -/
def parseOne (size : WordSize) (src : List UInt8) (dst : List UInt16) : Option (List UInt16) :=
  (size.read src).map fun word => dst ++ [UInt16.ofNat word]

def parseRepDescOne (size : WordSize) (src : List UInt8) (maxRep : UInt16) : Option ControlWordDesc :=
  (size.read src).map fun word => ⟨UInt16.ofNat word == maxRep, true, true⟩

def parseDefDescOne (size : WordSize) (src : List UInt8) : Option ControlWordDesc :=
  (size.read src).map fun word => ⟨true, true, UInt16.ofNat word == 0⟩

def bytesPerWord : ControlWordParser → Nat
  | both8 .. | rep8 | def8 => 1
  | both16 .. | rep16 | def16 => 2
  | both32 .. | rep32 | def32 => 4
  | nil => 0

/-- `parse`: the levels of the word at the front of `src` appended to those
read so far; none is a panic. -/
def parse (parser : ControlWordParser) (src : List UInt8) (dstRep dstDef : List UInt16) :
    Option (List UInt16 × List UInt16) :=
  match parser with
  | both8 bitsToShift maskToApply => parseBoth .one src dstRep dstDef bitsToShift maskToApply
  | both16 bitsToShift maskToApply => parseBoth .two src dstRep dstDef bitsToShift maskToApply
  | both32 bitsToShift maskToApply => parseBoth .four src dstRep dstDef bitsToShift maskToApply
  | rep8 => (parseOne .one src dstRep).map (·, dstDef)
  | rep16 => (parseOne .two src dstRep).map (·, dstDef)
  | rep32 => (parseOne .four src dstRep).map (·, dstDef)
  | def8 => (parseOne .one src dstDef).map (dstRep, ·)
  | def16 => (parseOne .two src dstDef).map (dstRep, ·)
  | def32 => (parseOne .four src dstDef).map (dstRep, ·)
  | nil => some (dstRep, dstDef)

def parseDesc (parser : ControlWordParser) (src : List UInt8) (maxRep maxVisibleDef : UInt16) :
    Option ControlWordDesc :=
  match parser with
  | both8 bitsToShift maskToApply => parseDescBoth .one src bitsToShift maskToApply maxRep maxVisibleDef
  | both16 bitsToShift maskToApply => parseDescBoth .two src bitsToShift maskToApply maxRep maxVisibleDef
  | both32 bitsToShift maskToApply => parseDescBoth .four src bitsToShift maskToApply maxRep maxVisibleDef
  | rep8 => parseRepDescOne .one src maxRep
  | rep16 => parseRepDescOne .two src maxRep
  | rep32 => parseRepDescOne .four src maxRep
  | def8 => parseDefDescOne .one src
  | def16 => parseDefDescOne .two src
  | def32 => parseDefDescOne .four src
  | nil => some ⟨true, true, true⟩

/-- `ControlWordParser::new`: the word size from the bits of both levels. -/
def new (bitsRep bitsDef : UInt8) : ControlWordParser :=
  let totalBits := bitsRep + bitsDef
  let wordSize := if totalBits ≤ 8 then WordSize.one else if totalBits ≤ 16 then .two else .four
  match decide (bitsRep > 0), decide (bitsDef > 0), wordSize with
  | false, false, _ => nil
  | false, true, .one => def8
  | false, true, .two => def16
  | false, true, .four => def32
  | true, false, .one => rep8
  | true, false, .two => rep16
  | true, false, .four => rep32
  | true, true, .one => both8 bitsDef (getMask bitsDef.toUInt16).toUInt32
  | true, true, .two => both16 bitsDef (getMask bitsDef.toUInt16).toUInt32
  | true, true, .four => both32 bitsDef (getMask bitsDef.toUInt16).toUInt32

end ControlWordParser

/-! ### What the parser reads back -/

def wordLevels : Option (List UInt16) → Option (List UInt16) → Nat → List (List UInt16 × List UInt16)
  | some rep, some defs, _ => (rep.zip defs).map fun (repLevel, defLevel) => ([repLevel], [defLevel])
  | some rep, none, _ => rep.map fun repLevel => ([repLevel], [])
  | none, some defs, _ => defs.map fun defLevel => ([], [defLevel])
  | none, none, len => List.replicate len ([], [])

/-- What an iterator over `len` items and a parser do together: `len` calls of
`append_next` write `len` words of `bytes_per_word` bytes each; the next call
writes nothing and returns `None`, or panics, which only the `u16` unary
iterator does; the parser takes words of that size, and reads from each word
the levels of its item and what the iterator said of it. -/
def ReadsBack (iter : ControlWordIterator) (parser : ControlWordParser) (maxRep maxVisibleDef : UInt16) (len : Nat)
    (levels : List (List UInt16 × List UInt16)) : Prop :=
  ∃ words descs drained,
    iter.appendCount len [] = some (descs, drained, words.flatten) ∧
    (∀ result, drained.appendNext words.flatten = some result → result = (none, drained, words.flatten)) ∧
    (drained.appendNext words.flatten = none ↔ ∃ unary, iter = .unary16 unary) ∧
    parser.bytesPerWord = iter.bytesPerWord ∧
    (∀ word ∈ words, word.length = iter.bytesPerWord) ∧
    List.Forall₂ (fun word pair => ∀ reps defs, parser.parse word reps defs = some (reps ++ pair.1, defs ++ pair.2))
      words levels ∧
    List.Forall₂ (fun word desc => parser.parseDesc word maxRep maxVisibleDef = some desc) words descs

/-! ### The bits a level takes -/

theorem logTable256_bounds : ∀ i < 256, 0 < i →
    2 ^ (logTable256.getD i 0).toNat ≤ 2 * i ∧ i < 2 ^ (logTable256.getD i 0).toNat := by
  decide +kernel

/-- The bits of the top part of a number, with those of the part shifted
away, are the bits of the number. -/
theorem pow_bounds_of_div {value shift bits : Nat}
    (top : 2 ^ bits ≤ 2 * (value / 2 ^ shift) ∧ value / 2 ^ shift < 2 ^ bits) :
    2 ^ (bits + shift) ≤ 2 * value ∧ value < 2 ^ (bits + shift) := by
  rw [Nat.pow_add]
  constructor
  · calc 2 ^ bits * 2 ^ shift ≤ 2 * (value / 2 ^ shift) * 2 ^ shift := Nat.mul_le_mul_right _ top.1
      _ ≤ 2 * value := by
        rw [Nat.mul_assoc]
        exact Nat.mul_le_mul_left 2 (Nat.div_mul_le_self value _)
  · calc value < 2 ^ shift * (value / 2 ^ shift + 1) := Nat.lt_mul_div_succ value (Nat.two_pow_pos shift)
      _ ≤ 2 ^ shift * 2 ^ bits := Nat.mul_le_mul_left _ top.2
      _ = 2 ^ bits * 2 ^ shift := Nat.mul_comm _ _

theorem toNat_shiftRight_eq_div (val : UInt32) {shift : UInt32} (narrow : shift.toNat < 32) :
    (val >>> shift).toNat = val.toNat / 2 ^ shift.toNat := by
  rw [UInt32.toNat_shiftRight, Nat.mod_eq_of_lt narrow, Nat.shiftRight_eq_div_pow]

/-- `log_2_ceil` counts the bits of its argument: `w` with
`2 ^ (w - 1) ≤ val < 2 ^ w`. -/
theorem log2Ceil_spec (val : UInt32) (positive : 0 < val) :
    2 ^ (log2Ceil val positive).toNat ≤ 2 * val.toNat ∧ val.toNat < 2 ^ (log2Ceil val positive).toNat := by
  have valPos : 0 < val.toNat := UInt32.lt_iff_toNat_lt.mp positive
  have below := val.toNat_lt
  have upper : (val >>> 16).toNat = val.toNat / 2 ^ 16 := toNat_shiftRight_eq_div val (by decide)
  have third : (val >>> 8).toNat = val.toNat / 2 ^ 8 := toNat_shiftRight_eq_div val (by decide)
  have first : (val >>> 16 >>> 8).toNat = val.toNat / (2 ^ 16 * 2 ^ 8) := by
    rw [toNat_shiftRight_eq_div _ (by decide), upper, Nat.div_div_eq_div_mul]
    rfl
  unfold log2Ceil
  dsimp only
  split_ifs with highZero topZero topZero
  -- one byte: the table itself
  · have small : val.toNat / 2 ^ 8 = 0 := by rw [← third, topZero]; rfl
    rw [UInt8.toNat_toUInt32]
    exact logTable256_bounds val.toNat (by omega) valPos
  -- two bytes: the table at the high byte, eight bits more
  · have small : val.toNat / 2 ^ 16 = 0 := by rw [← upper, highZero]; rfl
    have top : 0 < val.toNat / 2 ^ 8 := Nat.pos_of_ne_zero fun zero => topZero (UInt32.toNat_inj.mp (third.trans zero))
    have entry := (logTable256.getD (val.toNat / 2 ^ 8) 0).toNat_lt
    rw [UInt32.toNat_add, UInt8.toNat_toUInt32, third, show (8 : UInt32).toNat = 8 from rfl, Nat.mod_eq_of_lt (by omega)]
    exact pow_bounds_of_div (logTable256_bounds _ (by omega) top)
  · have small : val.toNat / (2 ^ 16 * 2 ^ 8) = 0 := by rw [← first, topZero]; rfl
    have top : 0 < val.toNat / 2 ^ 16 := Nat.pos_of_ne_zero fun zero => highZero (UInt32.toNat_inj.mp (upper.trans zero))
    have entry := (logTable256.getD (val.toNat / 2 ^ 16) 0).toNat_lt
    rw [UInt32.toNat_add, UInt8.toNat_toUInt32, upper, show (16 : UInt32).toNat = 16 from rfl, Nat.mod_eq_of_lt (by omega),
      Nat.add_comm]
    exact pow_bounds_of_div (logTable256_bounds _ (by omega) top)
  · have top : 0 < val.toNat / (2 ^ 16 * 2 ^ 8) :=
      Nat.pos_of_ne_zero fun zero => topZero (UInt32.toNat_inj.mp (first.trans zero))
    have entry := (logTable256.getD (val.toNat / (2 ^ 16 * 2 ^ 8)) 0).toNat_lt
    rw [UInt32.toNat_add, UInt8.toNat_toUInt32, first, show (24 : UInt32).toNat = 24 from rfl, Nat.mod_eq_of_lt (by omega),
      Nat.add_comm, ← Nat.pow_add]
    exact pow_bounds_of_div (logTable256_bounds _ (by omega) top)

theorem levelWidth_spec {maxLevel : UInt16} (nonzero : ¬maxLevel = 0) :
    2 ^ (levelWidth maxLevel).toNat ≤ 2 * maxLevel.toNat ∧ maxLevel.toNat < 2 ^ (levelWidth maxLevel).toNat := by
  obtain ⟨low, high⟩ := log2Ceil_spec maxLevel.toUInt32 (toUInt32_pos nonzero)
  rw [UInt16.toNat_toUInt32] at low high
  have narrow : (log2Ceil maxLevel.toUInt32 (toUInt32_pos nonzero)).toNat < 2 ^ 16 := by
    have fits : 2 ^ (log2Ceil maxLevel.toUInt32 (toUInt32_pos nonzero)).toNat < 2 ^ 17 := by
      have := maxLevel.toNat_lt
      omega
    have := (Nat.pow_lt_pow_iff_right (by decide)).mp fits
    omega
  unfold levelWidth
  rw [dif_neg nonzero, UInt32.toNat_toUInt16, Nat.mod_eq_of_lt narrow]
  exact ⟨low, high⟩

theorem lt_two_pow_levelWidth {level maxLevel : UInt16} (bound : level ≤ maxLevel) :
    level.toNat < 2 ^ (levelWidth maxLevel).toNat := by
  by_cases zero : maxLevel = 0
  · subst zero
    rw [UInt16.le_zero_iff.mp bound]
    exact Nat.two_pow_pos _
  · exact Nat.lt_of_le_of_lt (UInt16.le_iff_toNat_le.mp bound) (levelWidth_spec zero).2

theorem levelWidth_le {maxLevel : UInt16} (narrow : maxLevel.toNat < 2 ^ 15) : (levelWidth maxLevel).toNat ≤ 15 := by
  by_cases zero : maxLevel = 0
  · subst zero
    decide
  · have fits : 2 ^ (levelWidth maxLevel).toNat < 2 ^ 16 := by
      have := (levelWidth_spec zero).1
      omega
    exact Nat.lt_succ_iff.mp ((Nat.pow_lt_pow_iff_right (by decide)).mp fits)

theorem levelWidth_pos {maxLevel : UInt16} (nonzero : ¬maxLevel = 0) : 0 < (levelWidth maxLevel).toNat := by
  have positive : 0 < maxLevel.toNat := Nat.pos_of_ne_zero fun zero => nonzero (UInt16.toNat_inj.mp zero)
  have high := (levelWidth_spec nonzero).2
  refine Nat.pos_of_ne_zero fun zero => ?_
  rw [zero] at high
  omega

theorem toNat_getMask {width : UInt16} (narrow : width.toNat < 16) : (getMask width).toNat = 2 ^ width.toNat - 1 := by
  have power : ((1 : UInt16) <<< width).toNat = 2 ^ width.toNat := by
    rw [UInt16.toNat_shiftLeft, Nat.mod_eq_of_lt narrow, show (1 : UInt16).toNat = 1 from rfl, Nat.one_shiftLeft,
      Nat.mod_eq_of_lt (Nat.pow_lt_pow_right (by decide) narrow)]
  unfold getMask
  rw [UInt16.toNat_sub_of_le _ _ (UInt16.le_iff_toNat_le.mpr (by rw [power]; exact Nat.one_le_two_pow)), power]
  rfl

theorem toNat_levelMask {maxLevel : UInt16} (nonzero : ¬maxLevel = 0) (narrow : maxLevel.toNat < 2 ^ 15) :
    (levelMask maxLevel).toNat = 2 ^ (levelWidth maxLevel).toNat - 1 := by
  have width := levelWidth_le narrow
  unfold levelMask
  rw [if_neg nonzero, toNat_getMask (by omega)]

theorem and_levelMask {level maxLevel : UInt16} (bound : level ≤ maxLevel) (narrow : maxLevel.toNat < 2 ^ 15) :
    level &&& levelMask maxLevel = level := by
  by_cases zero : maxLevel = 0
  · subst zero
    rw [UInt16.le_zero_iff.mp bound]
    rfl
  · apply UInt16.toNat_inj.mp
    rw [UInt16.toNat_and, toNat_levelMask zero narrow, Nat.and_two_pow_sub_one_eq_mod,
      Nat.mod_eq_of_lt (lt_two_pow_levelWidth bound)]

/-! ### The two levels of a word -/

theorem fields_div {high low shift : Nat} (below : low < 2 ^ shift) : (high * 2 ^ shift + low) / 2 ^ shift = high := by
  rw [Nat.mul_comm, Nat.mul_add_div (Nat.two_pow_pos shift), Nat.div_eq_of_lt below, Nat.add_zero]

section Fields

variable {repLevel defLevel : UInt16} {bitsToShift : UInt8} {maskToApply : UInt32}

theorem beq_zero_toUInt16 {level : UInt16} {narrow : UInt8} (same : narrow.toNat = level.toNat) :
    (narrow == 0) = (level == 0) := by
  rw [Bool.eq_iff_iff, beq_iff_eq, beq_iff_eq, ← UInt8.toNat_inj, ← UInt16.toNat_inj, same]
  rfl

/-- The parser cuts a word of both kinds of level where the iterator joined
them: the def level under the mask of `bitsToShift` bits, the rep level
above. -/
theorem splitBoth_fields (size : WordSize) (shift : bitsToShift.toNat < 8 * size.bytes)
    (mask : maskToApply.toNat = 2 ^ bitsToShift.toNat - 1) (below : defLevel.toNat < 2 ^ bitsToShift.toNat)
    (fits : repLevel.toNat * 2 ^ bitsToShift.toNat + defLevel.toNat < 2 ^ (8 * size.bytes)) :
    ControlWordParser.splitBoth size (repLevel.toNat * 2 ^ bitsToShift.toNat + defLevel.toNat) bitsToShift
      maskToApply = (repLevel, defLevel, defLevel == 0) := by
  have high : (repLevel.toNat * 2 ^ bitsToShift.toNat + defLevel.toNat) / 2 ^ bitsToShift.toNat = repLevel.toNat :=
    fields_div below
  have low : (repLevel.toNat * 2 ^ bitsToShift.toNat + defLevel.toNat) % 2 ^ bitsToShift.toNat = defLevel.toNat :=
    Nat.mul_add_mod_of_lt below
  have maskFits : 2 ^ bitsToShift.toNat - 1 < 2 ^ (8 * size.bytes) :=
    Nat.lt_of_le_of_lt (Nat.sub_le _ 1) (Nat.pow_lt_pow_right (by decide) shift)
  cases size with
  | one =>
    simp only [WordSize.bytes] at shift fits maskFits
    have defNarrow : ((UInt8.ofNat (repLevel.toNat * 2 ^ bitsToShift.toNat + defLevel.toNat)) &&&
        maskToApply.toUInt8).toNat = defLevel.toNat := by
      rw [UInt8.toNat_and, UInt8.toNat_ofNat', Nat.mod_eq_of_lt fits, UInt32.toNat_toUInt8, mask,
        Nat.mod_eq_of_lt maskFits, Nat.and_two_pow_sub_one_eq_mod, low]
    simp only [ControlWordParser.splitBoth, Prod.mk.injEq]
    refine ⟨UInt16.toNat_inj.mp ?_, UInt16.toNat_inj.mp ?_, beq_zero_toUInt16 defNarrow⟩
    · rw [UInt8.toNat_toUInt16, UInt8.toNat_shiftRight, UInt8.toNat_ofNat', Nat.mod_eq_of_lt fits,
        Nat.mod_eq_of_lt shift, Nat.shiftRight_eq_div_pow, high]
    · rw [UInt8.toNat_toUInt16, defNarrow]
  | two =>
    simp only [WordSize.bytes] at shift fits maskFits
    simp only [ControlWordParser.splitBoth, Prod.mk.injEq]
    have defSame : ((UInt16.ofNat (repLevel.toNat * 2 ^ bitsToShift.toNat + defLevel.toNat)) &&&
        maskToApply.toUInt16) = defLevel := by
      apply UInt16.toNat_inj.mp
      rw [UInt16.toNat_and, UInt16.toNat_ofNat', Nat.mod_eq_of_lt fits, UInt32.toNat_toUInt16, mask,
        Nat.mod_eq_of_lt maskFits, Nat.and_two_pow_sub_one_eq_mod, low]
    refine ⟨UInt16.toNat_inj.mp ?_, defSame, by rw [defSame]⟩
    rw [UInt16.toNat_shiftRight, UInt16.toNat_ofNat', Nat.mod_eq_of_lt fits, UInt8.toNat_toUInt16,
      Nat.mod_eq_of_lt shift, Nat.shiftRight_eq_div_pow, high]
  | four =>
    simp only [WordSize.bytes] at shift fits maskFits
    simp only [ControlWordParser.splitBoth, Prod.mk.injEq]
    have defWide : ((UInt32.ofNat (repLevel.toNat * 2 ^ bitsToShift.toNat + defLevel.toNat)) &&&
        maskToApply).toNat = defLevel.toNat := by
      rw [UInt32.toNat_and, UInt32.toNat_ofNat', Nat.mod_eq_of_lt fits, mask, Nat.and_two_pow_sub_one_eq_mod, low]
    refine ⟨UInt16.toNat_inj.mp ?_, UInt16.toNat_inj.mp ?_, ?_⟩
    · rw [UInt32.toNat_toUInt16, UInt32.toNat_shiftRight, UInt32.toNat_ofNat', Nat.mod_eq_of_lt fits,
        UInt8.toNat_toUInt32, Nat.mod_eq_of_lt shift, Nat.shiftRight_eq_div_pow, high, Nat.mod_eq_of_lt repLevel.toNat_lt]
    · rw [UInt32.toNat_toUInt16, defWide, Nat.mod_eq_of_lt defLevel.toNat_lt]
    · rw [Bool.eq_iff_iff, beq_iff_eq, beq_iff_eq, ← UInt32.toNat_inj, ← UInt16.toNat_inj, defWide]
      rfl

theorem fields_lt {high low highBits lowBits : Nat} (highFits : high < 2 ^ highBits) (lowFits : low < 2 ^ lowBits) :
    high * 2 ^ lowBits + low < 2 ^ (highBits + lowBits) :=
  calc high * 2 ^ lowBits + low < high * 2 ^ lowBits + 2 ^ lowBits := Nat.add_lt_add_left lowFits _
    _ = (high + 1) * 2 ^ lowBits := (Nat.succ_mul _ _).symm
    _ ≤ 2 ^ highBits * 2 ^ lowBits := Nat.mul_le_mul_right _ highFits
    _ = 2 ^ (highBits + lowBits) := (Nat.pow_add 2 highBits lowBits).symm

end Fields

section Words

variable {iter : BinaryControlWordIterator} {next : UInt16 × UInt16}

/-- The word of a pair that its masks keep and that fits the word: the rep
level over `defWidth` bits of def level. -/
theorem toNat_controlWord8 (shift : iter.defWidth < 8) (repKept : next.1 &&& iter.repMask = next.1)
    (defKept : next.2 &&& iter.defMask = next.2) (fits : next.1.toNat * 2 ^ iter.defWidth + next.2.toNat < 2 ^ 8) :
    (iter.controlWord8 next).toNat = next.1.toNat * 2 ^ iter.defWidth + next.2.toNat := by
  have shifted : next.1.toNat * 2 ^ iter.defWidth < 2 ^ 8 := Nat.lt_of_le_of_lt (Nat.le_add_right _ _) fits
  have repByte : next.1.toNat < 2 ^ 8 :=
    Nat.lt_of_le_of_lt (Nat.le_mul_of_pos_right _ (Nat.two_pow_pos _)) shifted
  have defByte : next.2.toNat < 2 ^ 8 := Nat.lt_of_le_of_lt (Nat.le_add_left _ _) fits
  have shiftByte : iter.defWidth % 2 ^ 8 % 8 = iter.defWidth := by omega
  unfold BinaryControlWordIterator.controlWord8
  rw [repKept, defKept, UInt8.toNat_add, UInt8.toNat_shiftLeft, UInt16.toNat_toUInt8, UInt16.toNat_toUInt8,
    UInt8.toNat_ofNat', Nat.mod_eq_of_lt repByte, Nat.mod_eq_of_lt defByte, shiftByte, Nat.shiftLeft_eq,
    Nat.mod_eq_of_lt shifted, Nat.mod_eq_of_lt fits]

theorem toNat_controlWord16 (shift : iter.defWidth < 16) (repKept : next.1 &&& iter.repMask = next.1)
    (defKept : next.2 &&& iter.defMask = next.2) (fits : next.1.toNat * 2 ^ iter.defWidth + next.2.toNat < 2 ^ 16) :
    (iter.controlWord16 next).toNat = next.1.toNat * 2 ^ iter.defWidth + next.2.toNat := by
  have shifted : next.1.toNat * 2 ^ iter.defWidth < 2 ^ 16 := Nat.lt_of_le_of_lt (Nat.le_add_right _ _) fits
  have shiftWord : iter.defWidth % 2 ^ 16 % 16 = iter.defWidth := by omega
  unfold BinaryControlWordIterator.controlWord16
  rw [repKept, defKept, UInt16.toNat_add, UInt16.toNat_shiftLeft, UInt16.toNat_ofNat', shiftWord, Nat.shiftLeft_eq,
    Nat.mod_eq_of_lt shifted, Nat.mod_eq_of_lt fits]

theorem toNat_controlWord32 (shift : iter.defWidth < 32) (repKept : next.1 &&& iter.repMask = next.1)
    (defKept : next.2 &&& iter.defMask = next.2) (fits : next.1.toNat * 2 ^ iter.defWidth + next.2.toNat < 2 ^ 32) :
    (iter.controlWord32 next).toNat = next.1.toNat * 2 ^ iter.defWidth + next.2.toNat := by
  have shifted : next.1.toNat * 2 ^ iter.defWidth < 2 ^ 32 := Nat.lt_of_le_of_lt (Nat.le_add_right _ _) fits
  have shiftWord : iter.defWidth % 2 ^ 32 % 32 = iter.defWidth := by omega
  unfold BinaryControlWordIterator.controlWord32
  rw [repKept, defKept, UInt32.toNat_add, UInt32.toNat_shiftLeft, UInt16.toNat_toUInt32, UInt16.toNat_toUInt32,
    UInt32.toNat_ofNat', shiftWord, Nat.shiftLeft_eq, Nat.mod_eq_of_lt shifted, Nat.mod_eq_of_lt fits]

end Words

/-! ### The iterators and the parsers by word size -/

/-- The word size for levels of `totalBits` bits, as both the iterator and
the parser pick it. -/
def WordSize.ofBits (totalBits : Nat) : WordSize :=
  if totalBits ≤ 8 then .one else if totalBits ≤ 16 then .two else .four

theorem WordSize.le_bytes_ofBits {totalBits : Nat} (narrow : totalBits ≤ 32) :
    totalBits ≤ 8 * (ofBits totalBits).bytes := by
  unfold ofBits
  split_ifs <;> simp only [bytes] <;> omega

def ControlWordIterator.binaryOf : WordSize → BinaryControlWordIterator → ControlWordIterator
  | .one => .binary8
  | .two => .binary16
  | .four => .binary32

def ControlWordIterator.unaryOf : WordSize → UnaryControlWordIterator → ControlWordIterator
  | .one => .unary8
  | .two => .unary16
  | .four => .unary32

def ControlWordParser.bothOf : WordSize → UInt8 → UInt32 → ControlWordParser
  | .one => .both8
  | .two => .both16
  | .four => .both32

def ControlWordParser.repOf : WordSize → ControlWordParser
  | .one => .rep8
  | .two => .rep16
  | .four => .rep32

def ControlWordParser.defOf : WordSize → ControlWordParser
  | .one => .def8
  | .two => .def16
  | .four => .def32

open ControlWordIterator ControlWordParser

section BySize

variable (size : WordSize)

@[simp] theorem bytesPerWord_binaryOf (iter : BinaryControlWordIterator) : (binaryOf size iter).bytesPerWord = size.bytes := by
  cases size <;> rfl

@[simp] theorem bytesPerWord_unaryOf (iter : UnaryControlWordIterator) : (unaryOf size iter).bytesPerWord = size.bytes := by
  cases size <;> rfl

@[simp] theorem bitsRep_binaryOf (iter : BinaryControlWordIterator) : (binaryOf size iter).bitsRep = iter.bitsRep := by
  cases size <;> rfl

@[simp] theorem bitsDef_binaryOf (iter : BinaryControlWordIterator) : (binaryOf size iter).bitsDef = iter.bitsDef := by
  cases size <;> rfl

@[simp] theorem bitsRep_unaryOf (iter : UnaryControlWordIterator) : (unaryOf size iter).bitsRep = iter.bitsRep := by
  cases size <;> rfl

@[simp] theorem bitsDef_unaryOf (iter : UnaryControlWordIterator) : (unaryOf size iter).bitsDef = iter.bitsDef := by
  cases size <;> rfl

@[simp] theorem bytesPerWord_bothOf (bitsToShift : UInt8) (maskToApply : UInt32) :
    (bothOf size bitsToShift maskToApply).bytesPerWord = size.bytes := by
  cases size <;> rfl

@[simp] theorem bytesPerWord_repOf : (repOf size).bytesPerWord = size.bytes := by
  cases size <;> rfl

@[simp] theorem bytesPerWord_defOf : (defOf size).bytesPerWord = size.bytes := by
  cases size <;> rfl

/-- One call on a binary iterator: the pair's word is its rep level over
`defWidth` bits of def level, little-endian. -/
theorem appendNext_binaryOf {iter : BinaryControlWordIterator} {next : UInt16 × UInt16}
    {rest : List (UInt16 × UInt16)} (buf : List UInt8) (shift : iter.defWidth < 8 * size.bytes)
    (repKept : next.1 &&& iter.repMask = next.1) (defKept : next.2 &&& iter.defMask = next.2)
    (fits : next.1.toNat * 2 ^ iter.defWidth + next.2.toNat < 2 ^ (8 * size.bytes)) :
    (binaryOf size { iter with repdef := next :: rest }).appendNext buf =
      some (some (iter.describe next), binaryOf size { iter with repdef := rest },
        buf ++ toLeBytes size.bytes (next.1.toNat * 2 ^ iter.defWidth + next.2.toNat)) := by
  cases size with
  | one =>
    show some (some (iter.describe next), _, buf ++ [iter.controlWord8 next]) = _
    rw [← toNat_controlWord8 shift repKept defKept fits]
    simp only [WordSize.bytes, toLeBytes, UInt8.ofNat_toNat, binaryOf]
  | two =>
    show some (some (iter.describe next), _, buf ++ toLeBytes 2 (iter.controlWord16 next).toNat) = _
    rw [toNat_controlWord16 shift repKept defKept fits]
    rfl
  | four =>
    show some (some (iter.describe next), _, buf ++ toLeBytes 4 (iter.controlWord32 next).toNat) = _
    rw [toNat_controlWord32 shift repKept defKept fits]
    rfl

theorem appendNext_binaryOf_nil (iter : BinaryControlWordIterator) (buf : List UInt8) :
    (binaryOf size { iter with repdef := [] }).appendNext buf = some (none, binaryOf size { iter with repdef := [] }, buf) := by
  cases size <;> rfl

theorem appendNext_unaryOf {iter : UnaryControlWordIterator} {level : UInt16} {rest : List UInt16} (buf : List UInt8)
    (kept : level &&& iter.levelMask = level) :
    (unaryOf size { iter with repdef := level :: rest }).appendNext buf =
      some (some (iter.describe level), unaryOf size { iter with repdef := rest }, buf ++ toLeBytes size.bytes level.toNat) := by
  cases size with
  | one =>
    show some (some (iter.describe level), _, buf ++ [(level &&& iter.levelMask).toUInt8]) = _
    rw [kept]
    simp only [WordSize.bytes, toLeBytes]
    rfl
  | two =>
    show some (some (iter.describe (level &&& iter.levelMask)), _, buf ++ toLeBytes 2 (level &&& iter.levelMask).toNat) = _
    rw [kept]
    rfl
  | four =>
    show some (some (iter.describe (level &&& iter.levelMask)), _,
      buf ++ toLeBytes 4 (level &&& iter.levelMask).toUInt32.toNat) = _
    rw [kept, UInt16.toNat_toUInt32]
    rfl

theorem appendNext_unaryOf_nil (iter : UnaryControlWordIterator) (buf : List UInt8) :
    (unaryOf size { iter with repdef := [] }).appendNext buf =
      if size = .two then none else some (none, unaryOf size { iter with repdef := [] }, buf) := by
  cases size <;> rfl

theorem read_toLeBytes {word : Nat} (fits : word < 2 ^ (8 * size.bytes)) : size.read (toLeBytes size.bytes word) = some word := by
  have bytes : word < 256 ^ size.bytes := by rwa [Nat.pow_mul] at fits
  have read := readLe_toLeBytes_append bytes []
  rw [List.append_nil] at read
  simp only [WordSize.read, read, Option.map_some]

section Parse

variable {bitsToShift : UInt8} {maskToApply : UInt32} {repLevel defLevel level : UInt16}

theorem parse_bothOf (shift : bitsToShift.toNat < 8 * size.bytes) (mask : maskToApply.toNat = 2 ^ bitsToShift.toNat - 1)
    (below : defLevel.toNat < 2 ^ bitsToShift.toNat)
    (fits : repLevel.toNat * 2 ^ bitsToShift.toNat + defLevel.toNat < 2 ^ (8 * size.bytes)) (reps defs : List UInt16) :
    (bothOf size bitsToShift maskToApply).parse (toLeBytes size.bytes (repLevel.toNat * 2 ^ bitsToShift.toNat + defLevel.toNat))
      reps defs = some (reps ++ [repLevel], defs ++ [defLevel]) := by
  have split := splitBoth_fields size shift mask below fits
  have read := read_toLeBytes size fits
  cases size <;> simp only [bothOf, parse, parseBoth, read, split, Option.map_some]

theorem parseDesc_bothOf (shift : bitsToShift.toNat < 8 * size.bytes)
    (mask : maskToApply.toNat = 2 ^ bitsToShift.toNat - 1) (below : defLevel.toNat < 2 ^ bitsToShift.toNat)
    (fits : repLevel.toNat * 2 ^ bitsToShift.toNat + defLevel.toNat < 2 ^ (8 * size.bytes)) (maxRep maxVisibleDef : UInt16) :
    (bothOf size bitsToShift maskToApply).parseDesc
        (toLeBytes size.bytes (repLevel.toNat * 2 ^ bitsToShift.toNat + defLevel.toNat)) maxRep maxVisibleDef =
      some ⟨repLevel == maxRep, decide (defLevel ≤ maxVisibleDef), defLevel == 0⟩ := by
  have split := splitBoth_fields size shift mask below fits
  have read := read_toLeBytes size fits
  cases size <;> simp only [bothOf, parseDesc, parseDescBoth, read, split, Option.map_some]

theorem parse_repOf (fits : level.toNat < 2 ^ (8 * size.bytes)) (reps defs : List UInt16) :
    (repOf size).parse (toLeBytes size.bytes level.toNat) reps defs = some (reps ++ [level], defs) := by
  have read := read_toLeBytes size fits
  cases size <;> simp only [repOf, parse, parseOne, read, Option.map_some, UInt16.ofNat_toNat]

theorem parse_defOf (fits : level.toNat < 2 ^ (8 * size.bytes)) (reps defs : List UInt16) :
    (defOf size).parse (toLeBytes size.bytes level.toNat) reps defs = some (reps, defs ++ [level]) := by
  have read := read_toLeBytes size fits
  cases size <;> simp only [defOf, parse, parseOne, read, Option.map_some, UInt16.ofNat_toNat]

theorem parseDesc_repOf (fits : level.toNat < 2 ^ (8 * size.bytes)) (maxRep maxVisibleDef : UInt16) :
    (repOf size).parseDesc (toLeBytes size.bytes level.toNat) maxRep maxVisibleDef = some ⟨level == maxRep, true, true⟩ := by
  have read := read_toLeBytes size fits
  cases size <;> simp only [repOf, parseDesc, parseRepDescOne, read, Option.map_some, UInt16.ofNat_toNat]

theorem parseDesc_defOf (fits : level.toNat < 2 ^ (8 * size.bytes)) (maxRep maxVisibleDef : UInt16) :
    (defOf size).parseDesc (toLeBytes size.bytes level.toNat) maxRep maxVisibleDef = some ⟨true, true, level == 0⟩ := by
  have read := read_toLeBytes size fits
  cases size <;> simp only [defOf, parseDesc, parseDefDescOne, read, Option.map_some, UInt16.ofNat_toNat]

end Parse

end BySize

/-! ### The iterator and the parser that the widths pick -/

section Pick

variable {bitsRep bitsDef : UInt8}

theorem new_both (repWide : 0 < bitsRep.toNat) (defWide : 0 < bitsDef.toNat) (narrow : bitsRep.toNat + bitsDef.toNat < 256) :
    ControlWordParser.new bitsRep bitsDef =
      bothOf (WordSize.ofBits (bitsRep.toNat + bitsDef.toNat)) bitsDef (getMask bitsDef.toUInt16).toUInt32 := by
  have total : (bitsRep + bitsDef).toNat = bitsRep.toNat + bitsDef.toNat := by
    rw [UInt8.toNat_add, Nat.mod_eq_of_lt narrow]
  have small : bitsRep + bitsDef ≤ 8 ↔ bitsRep.toNat + bitsDef.toNat ≤ 8 := by
    rw [UInt8.le_iff_toNat_le, total]
    rfl
  have medium : bitsRep + bitsDef ≤ 16 ↔ bitsRep.toNat + bitsDef.toNat ≤ 16 := by
    rw [UInt8.le_iff_toNat_le, total]
    rfl
  have repPos : decide (bitsRep > 0) = true := decide_eq_true (UInt8.lt_iff_toNat_lt.mpr repWide)
  have defPos : decide (bitsDef > 0) = true := decide_eq_true (UInt8.lt_iff_toNat_lt.mpr defWide)
  unfold ControlWordParser.new WordSize.ofBits
  simp only [repPos, defPos, small, medium]
  split_ifs <;> rfl

theorem new_rep (repWide : 0 < bitsRep.toNat) : ControlWordParser.new bitsRep 0 = repOf (WordSize.ofBits bitsRep.toNat) := by
  have small : bitsRep + 0 ≤ 8 ↔ bitsRep.toNat ≤ 8 := by
    rw [UInt8.add_zero, UInt8.le_iff_toNat_le]
    rfl
  have medium : bitsRep + 0 ≤ 16 ↔ bitsRep.toNat ≤ 16 := by
    rw [UInt8.add_zero, UInt8.le_iff_toNat_le]
    rfl
  have repPos : decide (bitsRep > 0) = true := decide_eq_true (UInt8.lt_iff_toNat_lt.mpr repWide)
  unfold ControlWordParser.new WordSize.ofBits
  simp only [repPos, small, medium]
  split_ifs <;> rfl

theorem new_def (defWide : 0 < bitsDef.toNat) : ControlWordParser.new 0 bitsDef = defOf (WordSize.ofBits bitsDef.toNat) := by
  have small : 0 + bitsDef ≤ 8 ↔ bitsDef.toNat ≤ 8 := by
    rw [UInt8.zero_add, UInt8.le_iff_toNat_le]
    rfl
  have medium : 0 + bitsDef ≤ 16 ↔ bitsDef.toNat ≤ 16 := by
    rw [UInt8.zero_add, UInt8.le_iff_toNat_le]
    rfl
  have defPos : decide (bitsDef > 0) = true := decide_eq_true (UInt8.lt_iff_toNat_lt.mpr defWide)
  unfold ControlWordParser.new WordSize.ofBits
  simp only [defPos, small, medium]
  split_ifs <;> rfl

end Pick

section Build

variable (maxRep maxDef maxVisibleDef : UInt16) (len : Nat)

theorem buildControlWordIterator_some_some (rep defs : List UInt16) :
    buildControlWordIterator (some rep) maxRep (some defs) maxDef maxVisibleDef len =
      binaryOf (WordSize.ofBits (levelWidth maxRep + levelWidth maxDef).toNat)
        ⟨rep.zip defs, (levelWidth maxDef).toNat, maxRep, maxVisibleDef, levelMask maxRep, levelMask maxDef,
          (levelWidth maxRep).toUInt8, (levelWidth maxDef).toUInt8⟩ := by
  have small : levelWidth maxRep + levelWidth maxDef ≤ 8 ↔ (levelWidth maxRep + levelWidth maxDef).toNat ≤ 8 :=
    UInt16.le_iff_toNat_le
  have medium : levelWidth maxRep + levelWidth maxDef ≤ 16 ↔ (levelWidth maxRep + levelWidth maxDef).toNat ≤ 16 :=
    UInt16.le_iff_toNat_le
  unfold buildControlWordIterator WordSize.ofBits
  simp only [small, medium]
  split_ifs <;> rfl

theorem buildControlWordIterator_some_none (rep : List UInt16) :
    buildControlWordIterator (some rep) maxRep none maxDef maxVisibleDef len =
      unaryOf (WordSize.ofBits (levelWidth maxRep + levelWidth maxDef).toNat)
        ⟨rep, levelMask maxRep, (levelWidth maxRep + levelWidth maxDef).toUInt8, 0, maxRep⟩ := by
  have small : levelWidth maxRep + levelWidth maxDef ≤ 8 ↔ (levelWidth maxRep + levelWidth maxDef).toNat ≤ 8 :=
    UInt16.le_iff_toNat_le
  have medium : levelWidth maxRep + levelWidth maxDef ≤ 16 ↔ (levelWidth maxRep + levelWidth maxDef).toNat ≤ 16 :=
    UInt16.le_iff_toNat_le
  unfold buildControlWordIterator WordSize.ofBits
  simp only [small, medium]
  split_ifs <;> rfl

theorem buildControlWordIterator_none_some (defs : List UInt16) :
    buildControlWordIterator none maxRep (some defs) maxDef maxVisibleDef len =
      unaryOf (WordSize.ofBits (levelWidth maxRep + levelWidth maxDef).toNat)
        ⟨defs, levelMask maxDef, 0, (levelWidth maxRep + levelWidth maxDef).toUInt8, 0⟩ := by
  have small : levelWidth maxRep + levelWidth maxDef ≤ 8 ↔ (levelWidth maxRep + levelWidth maxDef).toNat ≤ 8 :=
    UInt16.le_iff_toNat_le
  have medium : levelWidth maxRep + levelWidth maxDef ≤ 16 ↔ (levelWidth maxRep + levelWidth maxDef).toNat ≤ 16 :=
    UInt16.le_iff_toNat_le
  unfold buildControlWordIterator WordSize.ofBits
  simp only [small, medium]
  split_ifs <;> rfl

end Build

/-! ### Runs of the iterators -/

section Runs

variable {α : Type} {good : α → Prop} {state : List α → ControlWordIterator} {word : α → List UInt8}
  {describe : α → ControlWordDesc}

/-- An iterator that holds its items in a list, and writes and describes the
first of them at each call, writes all of them in as many calls. -/
theorem appendCount_of_step
    (step : ∀ item, good item → ∀ rest buf,
      (state (item :: rest)).appendNext buf = some (some (describe item), state rest, buf ++ word item)) :
    ∀ items : List α, (∀ item ∈ items, good item) → ∀ buf,
      (state items).appendCount items.length buf =
        some (items.map describe, state [], buf ++ (items.map word).flatten)
  | [], _, buf => by simp [ControlWordIterator.appendCount]
  | item :: rest, allGood, buf => by
    have later := appendCount_of_step step rest (fun other member => allGood other (List.mem_cons_of_mem item member))
      (buf ++ word item)
    simp only [List.length_cons, ControlWordIterator.appendCount, step item (allGood item List.mem_cons_self), later,
      Option.map_some, List.map_cons, List.flatten_cons, List.append_assoc]

/-- An iterator that writes one word per item reads back: when each call of
`append_next` writes the word of the next item and describes it, the drained
iterator writes nothing more, and the parser reads from each word the levels
of its item and that description, `ReadsBack` holds of the whole list. -/
theorem readsBack_of_step {levels : α → List UInt16 × List UInt16} {parser : ControlWordParser}
    {maxRep maxVisibleDef : UInt16} {items : List α}
    (step : ∀ item, good item → ∀ rest buf,
      (state (item :: rest)).appendNext buf = some (some (describe item), state rest, buf ++ word item))
    (ends : ∀ buf result, (state []).appendNext buf = some result → result = (none, state [], buf))
    (panics : ∀ buf, (state []).appendNext buf = none ↔ ∃ unary, state items = .unary16 unary)
    (sameSize : parser.bytesPerWord = (state items).bytesPerWord)
    (sized : ∀ item, good item → (word item).length = (state items).bytesPerWord)
    (parses : ∀ item, good item → ∀ reps defs,
      parser.parse (word item) reps defs = some (reps ++ (levels item).1, defs ++ (levels item).2))
    (describes : ∀ item, good item → parser.parseDesc (word item) maxRep maxVisibleDef = some (describe item))
    (allGood : ∀ item ∈ items, good item) :
    ReadsBack (state items) parser maxRep maxVisibleDef items.length (items.map levels) := by
  refine ⟨items.map word, items.map describe, state [], ?_, ends _, panics _, sameSize, ?_, ?_, ?_⟩
  · rw [appendCount_of_step step items allGood [], List.nil_append]
  · intro piece member
    obtain ⟨item, inItems, rfl⟩ := List.mem_map.mp member
    exact sized item (allGood item inItems)
  · rw [List.forall₂_map_left_iff, List.forall₂_map_right_iff, List.forall₂_same]
    exact fun item member => parses item (allGood item member)
  · rw [List.forall₂_map_left_iff, List.forall₂_map_right_iff, List.forall₂_same]
    exact fun item member => describes item (allGood item member)

end Runs

/-- A binary iterator whose pairs its masks keep and its words hold reads back,
whatever the size of its words. -/
theorem readsBack_binaryOf (size : WordSize) {iter : BinaryControlWordIterator} {good : UInt16 × UInt16 → Prop}
    {maskToApply : UInt32} (shift : iter.defWidth < 8 * size.bytes) (bitsDef : iter.bitsDef.toNat = iter.defWidth)
    (mask : maskToApply.toNat = 2 ^ iter.defWidth - 1)
    (repKept : ∀ next, good next → next.1 &&& iter.repMask = next.1)
    (defKept : ∀ next, good next → next.2 &&& iter.defMask = next.2)
    (below : ∀ next, good next → next.2.toNat < 2 ^ iter.defWidth)
    (fits : ∀ next, good next → next.1.toNat * 2 ^ iter.defWidth + next.2.toNat < 2 ^ (8 * size.bytes))
    (allGood : ∀ next ∈ iter.repdef, good next) :
    ReadsBack (binaryOf size iter) (bothOf size iter.bitsDef maskToApply) iter.maxRep iter.maxVisibleDef
      iter.repdef.length (iter.repdef.map fun (repLevel, defLevel) => ([repLevel], [defLevel])) := by
  rw [← bitsDef] at shift mask below fits
  refine @readsBack_of_step (UInt16 × UInt16) good (fun pairs => binaryOf size { iter with repdef := pairs })
    (fun next => toLeBytes size.bytes (next.1.toNat * 2 ^ iter.bitsDef.toNat + next.2.toNat)) iter.describe
    (fun (repLevel, defLevel) => ([repLevel], [defLevel])) (bothOf size iter.bitsDef maskToApply) iter.maxRep
    iter.maxVisibleDef iter.repdef ?_ ?_ ?_ ?_ ?_ ?_ ?_ allGood
  · intro next nextGood rest buf
    rw [bitsDef]
    rw [bitsDef] at fits
    exact appendNext_binaryOf size buf (bitsDef ▸ shift) (repKept next nextGood) (defKept next nextGood) (fits next nextGood)
  · intro buf result called
    rw [appendNext_binaryOf_nil] at called
    exact (Option.some.inj called).symm
  · intro buf
    rw [appendNext_binaryOf_nil]
    constructor
    · intro called
      cases called
    · rintro ⟨unary, same⟩
      cases size <;> cases same
  · simp only [bytesPerWord_bothOf, bytesPerWord_binaryOf]
  · intro next _
    simp only [length_toLeBytes, bytesPerWord_binaryOf]
  · rintro ⟨repLevel, defLevel⟩ nextGood reps defs
    exact parse_bothOf size shift mask (below _ nextGood) (fits _ nextGood) reps defs
  · rintro ⟨repLevel, defLevel⟩ nextGood
    exact parseDesc_bothOf size shift mask (below _ nextGood) (fits _ nextGood) iter.maxRep iter.maxVisibleDef

/-- A unary iterator whose levels its mask keeps reads back, with a parser
that reads the levels and describes them as the iterator does. -/
theorem readsBack_unaryOf (size : WordSize) {iter : UnaryControlWordIterator} {good : UInt16 → Prop}
    {parser : ControlWordParser} {maxRep maxVisibleDef : UInt16} {levels : UInt16 → List UInt16 × List UInt16}
    (kept : ∀ level, good level → level &&& iter.levelMask = level) (sameSize : parser.bytesPerWord = size.bytes)
    (parses : ∀ level, good level → ∀ reps defs,
      parser.parse (toLeBytes size.bytes level.toNat) reps defs = some (reps ++ (levels level).1, defs ++ (levels level).2))
    (describes : ∀ level, good level →
      parser.parseDesc (toLeBytes size.bytes level.toNat) maxRep maxVisibleDef = some (iter.describe level))
    (allGood : ∀ level ∈ iter.repdef, good level) :
    ReadsBack (unaryOf size iter) parser maxRep maxVisibleDef iter.repdef.length (iter.repdef.map levels) := by
  refine @readsBack_of_step UInt16 good (fun rest => unaryOf size { iter with repdef := rest })
    (fun level => toLeBytes size.bytes level.toNat) iter.describe levels parser maxRep maxVisibleDef iter.repdef
    (fun level levelGood rest buf => appendNext_unaryOf size buf (kept level levelGood)) ?_ ?_
    (by simp only [sameSize, bytesPerWord_unaryOf]) (fun _ _ => by simp only [length_toLeBytes, bytesPerWord_unaryOf])
    parses describes allGood
  · intro buf result called
    rw [appendNext_unaryOf_nil] at called
    cases size
    · exact (Option.some.inj called).symm
    · cases called
    · exact (Option.some.inj called).symm
  · intro buf
    rw [appendNext_unaryOf_nil]
    cases size <;> simp [unaryOf]

theorem appendCount_nilary {len : Nat} : ∀ count, count ≤ len → ∀ buf : List UInt8,
    (ControlWordIterator.nilary ⟨len, len - count⟩).appendCount count buf =
      some (List.replicate count ⟨true, true, true⟩, .nilary ⟨len, len⟩, buf)
  | 0, _, buf => by simp [appendCount]
  | count + 1, within, buf => by
    have next : len - (count + 1) + 1 = len - count := by omega
    have busy : len - (count + 1) ≠ len := by omega
    simp only [appendCount, appendNext, NilaryControlWordIterator.appendNext, if_neg busy, next,
      appendCount_nilary count (Nat.le_of_succ_le within) buf, Option.map_some, List.replicate_succ]

/-- Without levels, every item is a word of no bytes that the parser of no
levels reads. -/
theorem readsBack_nilary (maxRep maxVisibleDef : UInt16) (len : Nat) :
    ReadsBack (.nilary ⟨len, 0⟩) .nil maxRep maxVisibleDef len (List.replicate len ([], [])) := by
  have run := appendCount_nilary len (Nat.le_refl len) []
  rw [Nat.sub_self] at run
  -- each of the three lists is one value for each item
  have words : List.replicate len ([] : List UInt8) = (List.replicate len ()).map fun _ => [] := by simp
  have levels : List.replicate len (([] : List UInt16), ([] : List UInt16)) =
      (List.replicate len ()).map fun _ => ([], []) := by simp
  have descs : List.replicate len (⟨true, true, true⟩ : ControlWordDesc) =
      (List.replicate len ()).map fun _ => ⟨true, true, true⟩ := by simp
  refine ⟨List.replicate len [], List.replicate len ⟨true, true, true⟩, .nilary ⟨len, len⟩, ?_, ?_, ?_, rfl, ?_, ?_, ?_⟩
  · rw [run, List.flatten_replicate_nil]
  · intro result called
    simp only [appendNext, NilaryControlWordIterator.appendNext, Option.some.injEq] at called
    exact called.symm
  · simp [appendNext, NilaryControlWordIterator.appendNext]
  · intro word member
    rw [List.eq_of_mem_replicate member]
    rfl
  · rw [words, levels, List.forall₂_map_left_iff, List.forall₂_map_right_iff, List.forall₂_same]
    intro _ _ reps defs
    simp only [parse, List.append_nil]
  · rw [words, descs, List.forall₂_map_left_iff, List.forall₂_map_right_iff, List.forall₂_same]
    intro _ _
    rfl

/-! ### The iterator `build_control_word_iterator` makes reads back -/

section Built

variable {maxRep maxDef : UInt16} (maxVisibleDef : UInt16) {len : Nat}

/-- The two widths together take at most thirty bits, and the bits of each
fit the bytes of its `u8` count. -/
theorem widths_facts (repNarrow : maxRep.toNat < 2 ^ 15) (defNarrow : maxDef.toNat < 2 ^ 15) :
    (levelWidth maxRep + levelWidth maxDef).toNat = (levelWidth maxRep).toNat + (levelWidth maxDef).toNat ∧
      (levelWidth maxRep).toUInt8.toNat = (levelWidth maxRep).toNat ∧
      (levelWidth maxDef).toUInt8.toNat = (levelWidth maxDef).toNat ∧
      (levelWidth maxRep + levelWidth maxDef).toUInt8.toNat = (levelWidth maxRep).toNat + (levelWidth maxDef).toNat ∧
      (levelWidth maxRep).toNat + (levelWidth maxDef).toNat ≤
        8 * (WordSize.ofBits ((levelWidth maxRep).toNat + (levelWidth maxDef).toNat)).bytes := by
  have repWidth := levelWidth_le repNarrow
  have defWidth := levelWidth_le defNarrow
  have total : (levelWidth maxRep + levelWidth maxDef).toNat = (levelWidth maxRep).toNat + (levelWidth maxDef).toNat := by
    rw [UInt16.toNat_add, Nat.mod_eq_of_lt (by omega)]
  refine ⟨total, ?_, ?_, ?_, WordSize.le_bytes_ofBits (by omega)⟩
  · rw [UInt16.toNat_toUInt8, Nat.mod_eq_of_lt (by omega)]
  · rw [UInt16.toNat_toUInt8, Nat.mod_eq_of_lt (by omega)]
  · rw [UInt16.toNat_toUInt8, total, Nat.mod_eq_of_lt (by omega)]

theorem level_fits {level maxLevel : UInt16} {width size : Nat} (bound : level ≤ maxLevel)
    (within : (levelWidth maxLevel).toNat ≤ width) (bytes : width ≤ 8 * size) : level.toNat < 2 ^ (8 * size) :=
  Nat.lt_of_lt_of_le (lt_two_pow_levelWidth bound) (Nat.pow_le_pow_right (by decide) (Nat.le_trans within bytes))

theorem readsBack_some_some {rep defs : List UInt16} (repCount : rep.length = len) (defCount : defs.length = len)
    (repBound : ∀ level ∈ rep, level ≤ maxRep) (defBound : ∀ level ∈ defs, level ≤ maxDef)
    (repNarrow : maxRep.toNat < 2 ^ 15) (defNarrow : maxDef.toNat < 2 ^ 15) (repWide : maxRep ≠ 0)
    (defWide : maxDef ≠ 0) :
    ReadsBack (buildControlWordIterator (some rep) maxRep (some defs) maxDef maxVisibleDef len)
      (ControlWordParser.new (buildControlWordIterator (some rep) maxRep (some defs) maxDef maxVisibleDef len).bitsRep
        (buildControlWordIterator (some rep) maxRep (some defs) maxDef maxVisibleDef len).bitsDef)
      maxRep maxVisibleDef len (wordLevels (some rep) (some defs) len) := by
  obtain ⟨total, bitsRep, bitsDef, _, bytes⟩ := widths_facts repNarrow defNarrow
  have repPos := levelWidth_pos repWide
  have defPos := levelWidth_pos defWide
  have repWidth := levelWidth_le repNarrow
  have defWidth := levelWidth_le defNarrow
  have parser : ControlWordParser.new (levelWidth maxRep).toUInt8 (levelWidth maxDef).toUInt8 =
      bothOf (WordSize.ofBits ((levelWidth maxRep).toNat + (levelWidth maxDef).toNat)) (levelWidth maxDef).toUInt8
        (getMask (levelWidth maxDef).toUInt8.toUInt16).toUInt32 := by
    rw [@new_both (levelWidth maxRep).toUInt8 (levelWidth maxDef).toUInt8 (by omega) (by omega) (by omega), bitsRep,
      bitsDef]
  have mask : (getMask (levelWidth maxDef).toUInt8.toUInt16).toUInt32.toNat = 2 ^ (levelWidth maxDef).toNat - 1 := by
    rw [UInt16.toNat_toUInt32, toNat_getMask (by rw [UInt8.toNat_toUInt16, bitsDef]; omega), UInt8.toNat_toUInt16, bitsDef]
  have count : (rep.zip defs).length = len := by rw [List.length_zip, repCount, defCount, Nat.min_self]
  rw [buildControlWordIterator_some_some, bitsRep_binaryOf, bitsDef_binaryOf, parser, total, ← count]
  set size := WordSize.ofBits ((levelWidth maxRep).toNat + (levelWidth maxDef).toNat)
  have shift : (levelWidth maxDef).toNat < 8 * size.bytes := by omega
  -- a pair of levels within their maxima: its masks keep it and its word holds it
  refine @readsBack_binaryOf size _ (fun next => next.1 ≤ maxRep ∧ next.2 ≤ maxDef) _ shift bitsDef mask
    (fun next nextGood => and_levelMask nextGood.1 repNarrow) (fun next nextGood => and_levelMask nextGood.2 defNarrow)
    (fun next nextGood => lt_two_pow_levelWidth nextGood.2) (fun next nextGood => ?_) ?_
  · exact Nat.lt_of_lt_of_le (fields_lt (lt_two_pow_levelWidth nextGood.1) (lt_two_pow_levelWidth nextGood.2))
      (Nat.pow_le_pow_right (by decide) bytes)
  · rintro ⟨repLevel, defLevel⟩ member
    exact ⟨repBound _ (List.of_mem_zip member).1, defBound _ (List.of_mem_zip member).2⟩

theorem readsBack_some_none {rep : List UInt16} (repCount : rep.length = len) (repBound : ∀ level ∈ rep, level ≤ maxRep)
    (repNarrow : maxRep.toNat < 2 ^ 15) (defNarrow : maxDef.toNat < 2 ^ 15) (someWide : maxRep ≠ 0 ∨ maxDef ≠ 0) :
    ReadsBack (buildControlWordIterator (some rep) maxRep none maxDef maxVisibleDef len)
      (ControlWordParser.new (buildControlWordIterator (some rep) maxRep none maxDef maxVisibleDef len).bitsRep
        (buildControlWordIterator (some rep) maxRep none maxDef maxVisibleDef len).bitsDef)
      maxRep maxVisibleDef len (wordLevels (some rep) none len) := by
  obtain ⟨total, _, _, totalBits, bytes⟩ := widths_facts repNarrow defNarrow
  have wide : 0 < (levelWidth maxRep).toNat + (levelWidth maxDef).toNat := by
    rcases someWide with repWide | defWide
    · exact Nat.lt_of_lt_of_le (levelWidth_pos repWide) (Nat.le_add_right _ _)
    · exact Nat.lt_of_lt_of_le (levelWidth_pos defWide) (Nat.le_add_left _ _)
  have parser : ControlWordParser.new (levelWidth maxRep + levelWidth maxDef).toUInt8 0 =
      repOf (WordSize.ofBits ((levelWidth maxRep).toNat + (levelWidth maxDef).toNat)) := by
    rw [@new_rep (levelWidth maxRep + levelWidth maxDef).toUInt8 (by omega), totalBits]
  rw [buildControlWordIterator_some_none, bitsRep_unaryOf, bitsDef_unaryOf, parser, total, ← repCount]
  set size := WordSize.ofBits ((levelWidth maxRep).toNat + (levelWidth maxDef).toNat)
  have fits : ∀ level, level ≤ maxRep → level.toNat < 2 ^ (8 * size.bytes) :=
    fun level bound => level_fits bound (Nat.le_add_right _ _) bytes
  refine @readsBack_unaryOf size _ (fun level => level ≤ maxRep) (repOf size) maxRep maxVisibleDef
    (fun level => ([level], [])) (fun level bound => and_levelMask bound repNarrow) (bytesPerWord_repOf size)
    (fun level bound reps defs => by simpa only [List.append_nil] using parse_repOf size (fits level bound) reps defs)
    (fun level bound => ?_) repBound
  rw [parseDesc_repOf size (fits level bound)]
  -- with only rep levels, an item starts a row at the maximum, which a zero maximum makes every item
  have newRow : (maxRep == 0 || level == maxRep) = (level == maxRep) := by
    by_cases zero : maxRep = 0
    · subst zero
      rw [UInt16.le_zero_iff.mp bound]
      rfl
    · simp [zero]
  simp only [UnaryControlWordIterator.describe, newRow, beq_self_eq_true, Bool.or_true]

theorem readsBack_none_some {defs : List UInt16} (defCount : defs.length = len) (defBound : ∀ level ∈ defs, level ≤ maxDef)
    (repNarrow : maxRep.toNat < 2 ^ 15) (defNarrow : maxDef.toNat < 2 ^ 15) (someWide : maxRep ≠ 0 ∨ maxDef ≠ 0) :
    ReadsBack (buildControlWordIterator none maxRep (some defs) maxDef maxVisibleDef len)
      (ControlWordParser.new (buildControlWordIterator none maxRep (some defs) maxDef maxVisibleDef len).bitsRep
        (buildControlWordIterator none maxRep (some defs) maxDef maxVisibleDef len).bitsDef)
      maxRep maxVisibleDef len (wordLevels none (some defs) len) := by
  obtain ⟨total, _, _, totalBits, bytes⟩ := widths_facts repNarrow defNarrow
  have wide : 0 < (levelWidth maxRep).toNat + (levelWidth maxDef).toNat := by
    rcases someWide with repWide | defWide
    · exact Nat.lt_of_lt_of_le (levelWidth_pos repWide) (Nat.le_add_right _ _)
    · exact Nat.lt_of_lt_of_le (levelWidth_pos defWide) (Nat.le_add_left _ _)
  have parser : ControlWordParser.new 0 (levelWidth maxRep + levelWidth maxDef).toUInt8 =
      defOf (WordSize.ofBits ((levelWidth maxRep).toNat + (levelWidth maxDef).toNat)) := by
    rw [@new_def (levelWidth maxRep + levelWidth maxDef).toUInt8 (by omega), totalBits]
  have counted : (levelWidth maxRep + levelWidth maxDef).toUInt8 ≠ 0 := fun zero => by
    rw [zero] at totalBits
    exact Nat.ne_of_lt wide totalBits
  rw [buildControlWordIterator_none_some, bitsRep_unaryOf, bitsDef_unaryOf, parser, total, ← defCount]
  set size := WordSize.ofBits ((levelWidth maxRep).toNat + (levelWidth maxDef).toNat)
  have fits : ∀ level, level ≤ maxDef → level.toNat < 2 ^ (8 * size.bytes) :=
    fun level bound => level_fits bound (Nat.le_add_left _ _) bytes
  refine @readsBack_unaryOf size _ (fun level => level ≤ maxDef) (defOf size) maxRep maxVisibleDef
    (fun level => ([], [level])) (fun level bound => and_levelMask bound defNarrow) (bytesPerWord_defOf size)
    (fun level bound reps defs => by simpa only [List.append_nil] using parse_defOf size (fits level bound) reps defs)
    (fun level bound => ?_) defBound
  rw [parseDesc_defOf size (fits level bound)]
  -- with only def levels every item starts a row, and the def bits are not zero: an item is valid at def level zero
  have validItem : (level == 0 || (levelWidth maxRep + levelWidth maxDef).toUInt8 == 0) = (level == 0) := by
    rw [beq_eq_false_iff_ne.mpr counted, Bool.or_false]
  simp only [UnaryControlWordIterator.describe, validItem, beq_self_eq_true, Bool.true_or]

theorem readsBack_none_none :
    ReadsBack (buildControlWordIterator none maxRep none maxDef maxVisibleDef len)
      (ControlWordParser.new (buildControlWordIterator none maxRep none maxDef maxVisibleDef len).bitsRep
        (buildControlWordIterator none maxRep none maxDef maxVisibleDef len).bitsDef)
      maxRep maxVisibleDef len (wordLevels none none len) :=
  readsBack_nilary maxRep maxVisibleDef len

end Built

/-- Control words read back: for level buffers of `len` items (either may be
absent), with every level within its maximum, each maximum below `2 ^ 15`
and a bit in the word for each kind of level present, the iterator
`build_control_word_iterator` makes writes exactly `len` words of
`bytes_per_word` bytes and then returns `None`, except that the `u16` unary
iterator panics there; and the parser made from its bits reads from each word
the levels of its item and what `append_next` said of it. -/
theorem buildControlWordIterator_readsBack {rep defs : Option (List UInt16)} {maxRep maxDef : UInt16}
    (maxVisibleDef : UInt16) {len : Nat} (repCount : ∀ levels ∈ rep, levels.length = len)
    (defCount : ∀ levels ∈ defs, levels.length = len) (repBound : ∀ levels ∈ rep, ∀ level ∈ levels, level ≤ maxRep)
    (defBound : ∀ levels ∈ defs, ∀ level ∈ levels, level ≤ maxDef) (repNarrow : maxRep.toNat < 2 ^ 15)
    (defNarrow : maxDef.toNat < 2 ^ 15) (bothWide : rep.isSome → defs.isSome → maxRep ≠ 0 ∧ maxDef ≠ 0)
    (someWide : rep.isSome ∨ defs.isSome → maxRep ≠ 0 ∨ maxDef ≠ 0) :
    let iter := buildControlWordIterator rep maxRep defs maxDef maxVisibleDef len
    ReadsBack iter (ControlWordParser.new iter.bitsRep iter.bitsDef) maxRep maxVisibleDef len (wordLevels rep defs len) := by
  intro iter
  cases rep with
  | none =>
    cases defs with
    | none => exact readsBack_none_none maxVisibleDef
    | some defs =>
      exact readsBack_none_some maxVisibleDef (defCount defs rfl) (defBound defs rfl) repNarrow defNarrow
        (someWide (Or.inr rfl))
  | some rep =>
    cases defs with
    | none =>
      exact readsBack_some_none maxVisibleDef (repCount rep rfl) (repBound rep rfl) repNarrow defNarrow
        (someWide (Or.inl rfl))
    | some defs =>
      obtain ⟨repWide, defWide⟩ := bothWide rfl rfl
      exact readsBack_some_some maxVisibleDef (repCount rep rfl) (defCount defs rfl) (repBound rep rfl)
        (defBound defs rfl) repNarrow defNarrow repWide defWide

/-- Where control words do not read back: the `u16` unary iterator, which a
def level of nine bits picks, panics on the call after its last word; a rep
level present under a zero maximum takes no bit, and the parser drops it; a
maximum of `2 ^ 15` takes sixteen bits, whose mask `get_mask` wraps to zero,
and the level reads back as zero. -/
theorem buildControlWordIterator_fails_at_corners :
    (∃ drained, (buildControlWordIterator none 0 (some [256]) 256 256 1).appendCount 1 [] =
        some ([⟨true, true, false⟩], drained, [0, 1]) ∧ drained.appendNext [0, 1] = none) ∧
    (let iter := buildControlWordIterator (some [0]) 0 (some [1]) 1 1 1;
      (∃ descs drained, iter.appendCount 1 [] = some (descs, drained, [1])) ∧
        (ControlWordParser.new iter.bitsRep iter.bitsDef).parse [1] [] [] = some ([], [1])) ∧
    (let iter := buildControlWordIterator none 0 (some [32768]) 32768 32768 1;
      (∃ descs drained, iter.appendCount 1 [] = some (descs, drained, [0, 0])) ∧
        (ControlWordParser.new iter.bitsRep iter.bitsDef).parse [0, 0] [] [] = some ([], [0])) :=
  ⟨⟨_, rfl, rfl⟩, ⟨⟨_, _, rfl⟩, rfl⟩, ⟨⟨_, _, rfl⟩, rfl⟩⟩

end Lance.Encoding.RepDef
