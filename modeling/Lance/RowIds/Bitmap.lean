import Lance.Library.ByteBits
import Lance.Library.WordArith
import Mathlib.Data.List.ModifyLast

/-! `Bitmap`: bits packed eight to a byte, least significant first, with the
number of bits that count. Reading or writing a byte past the end panics in the
source; here it is `none`. Lengths are `usize`, 64 bits wide, and a subtraction
on them wraps, as a release build does. -/

namespace Lance.RowIds

open Lance.Library

/-- `Bitmap`. -/
structure Bitmap where
  data : List UInt8
  len : Nat
  deriving DecidableEq, Repr

namespace Bitmap

/-- `1 << (i % 8)`: the mask of bit `i` within its byte. -/
def bitMask (i : Nat) : UInt8 := 1 <<< UInt8.ofNat (i % 8)

def newEmpty (len : Nat) : Bitmap := ⟨List.replicate ((len + 7) / 8) 0, len⟩

/-- `new_full`: every byte `0xff`, then the bits of the last byte past `len`
cleared one by one from the top. -/
def newFull (len : Nat) : Bitmap :=
  let data := List.replicate ((len + 7) / 8) (0xFF : UInt8)
  let remainder := len % 8
  if remainder ≠ 0 then
    let bitsToClear := 8 - remainder
    let clearTop := fun (lastByte : UInt8) =>
      (List.range bitsToClear).foldl (fun byte offsetFromEnd => byte &&& ~~~(1 <<< UInt8.ofNat (7 - offsetFromEnd)))
        lastByte
    ⟨data.modifyLast clearTop, len⟩
  else ⟨data, len⟩

def set (bitmap : Bitmap) (i : Nat) : Option Bitmap :=
  if i / 8 < bitmap.data.length then some { bitmap with data := bitmap.data.modify (i / 8) (· ||| bitMask i) }
  else none

def clear (bitmap : Bitmap) (i : Nat) : Option Bitmap :=
  if i / 8 < bitmap.data.length then some { bitmap with data := bitmap.data.modify (i / 8) (· &&& ~~~(bitMask i)) }
  else none

def get (bitmap : Bitmap) (i : Nat) : Option Bool :=
  bitmap.data[i / 8]?.map fun byte => byte &&& bitMask i != 0

def countOnes (bitmap : Bitmap) : Nat := (bitmap.data.map Library.countOnes).sum

def countZeros (bitmap : Bitmap) : Nat := (UInt64.ofNat bitmap.len - UInt64.ofNat bitmap.countOnes).toNat

/-- `iter`: the first `len` bits. -/
def iter (bitmap : Bitmap) : List Bool :=
  (bitmap.data.flatMap fun x => (List.range 8).map (testBit x)).take bitmap.len

/-- `From<&[bool]>`: an empty bitmap as long as the slice, with each bit the
slice holds set. -/
def fromBools (slice : List Bool) : Option Bitmap :=
  slice.zipIdx.foldlM (fun bitmap entry => if entry.1 then bitmap.set entry.2 else some bitmap)
    (newEmpty slice.length)

/-- `BitmapSlice`: the bits `[start, start + len)` of a bitmap. -/
structure BitmapSlice where
  bitmap : Bitmap
  start : Nat
  len : Nat

def slice (bitmap : Bitmap) (start len : Nat) : BitmapSlice := ⟨bitmap, start, len⟩

/-- `BitmapSlice::count_ones`: the bits of the first and last byte counted one
by one, the whole bytes between them by `count_ones`. -/
def BitmapSlice.countOnes (slice : BitmapSlice) : Option Nat :=
  if slice.len = 0 then some 0
  else
    let firstByte := slice.start / 8
    let lastByte := (slice.start + slice.len - 1) / 8
    let lastBit := (slice.start + slice.len - 1) % 8 + 1
    if firstByte = lastByte then
      slice.bitmap.data[firstByte]?.map fun byte => countBitsIn byte (slice.start % 8) lastBit
    else do
      let first ← slice.bitmap.data[firstByte]?
      let last ← slice.bitmap.data[lastByte]?
      let middle := (slice.bitmap.data.drop (firstByte + 1)).take (lastByte - (firstByte + 1))
      pure (countBitsIn first (slice.start % 8) 8 + countBitsIn last 0 lastBit + (middle.map Library.countOnes).sum)

def BitmapSlice.countZeros (slice : BitmapSlice) : Option Nat :=
  slice.countOnes.map fun ones => (UInt64.ofNat slice.len - UInt64.ofNat ones).toNat

/-! ### The bits of a bitmap

Every read is a read of `bits`, the bits of the bytes with the padding past
`len`; `clear` turns one of them off, and `new_full` turns on the first `len`
and leaves the padding off. -/

/-- The bits of the bytes, padding included, least significant first. -/
def bits (bitmap : Bitmap) : List Bool := bitmap.data.flatMap byteBits

@[simp] theorem length_bits (bitmap : Bitmap) : bitmap.bits.length = 8 * bitmap.data.length := by
  simp [bits, List.length_flatMap, List.map_const', Nat.mul_comm]

theorem get_eq (bitmap : Bitmap) (i : Nat) : bitmap.get i = bitmap.bits[i]? := by
  rw [bits, getElem?_flatMap_byteBits]
  rfl

theorem iter_eq (bitmap : Bitmap) : bitmap.iter = bitmap.bits.take bitmap.len := rfl

theorem countOnes_eq (bitmap : Bitmap) : bitmap.countOnes = bitmap.bits.count true := by
  rw [bits, count_flatMap_byteBits]
  rfl

theorem countZeros_eq (bitmap : Bitmap) : bitmap.countZeros = usizeSub bitmap.len (bitmap.bits.count true) := by
  rw [← countOnes_eq]
  rfl

theorem flatMap_replicate_ff : ∀ n : Nat, (List.replicate n (0xFF : UInt8)).flatMap byteBits = List.replicate (8 * n) true
  | 0 => rfl
  | n + 1 => by
    rw [List.replicate_succ, List.flatMap_cons, flatMap_replicate_ff n, byteBits_ff,
      List.replicate_append_replicate]
    congr 1
    omega

set_option maxRecDepth 2000 in
theorem byteBits_clearTop : ∀ r < 8,
    byteBits ((List.range (8 - r)).foldl (fun byte offsetFromEnd => byte &&& ~~~(1 <<< UInt8.ofNat (7 - offsetFromEnd)))
      0xFF) = List.replicate r true ++ List.replicate (8 - r) false := by
  decide

@[simp] theorem len_newFull (len : Nat) : (newFull len).len = len := by
  dsimp only [newFull]
  split <;> rfl

theorem bits_newFull (len : Nat) :
    (newFull len).bits = List.replicate len true ++ List.replicate (8 * ((len + 7) / 8) - len) false := by
  dsimp only [newFull]
  split
  · -- a partial last byte: whole bytes, then the low `len % 8` bits of the last
    rename_i partialByte
    have bytes : (len + 7) / 8 = len / 8 + 1 := by omega
    simp only [bits]
    rw [bytes, List.replicate_succ', List.modifyLast_concat, List.flatMap_append, flatMap_replicate_ff,
      List.flatMap_cons, List.flatMap_nil, List.append_nil, byteBits_clearTop (len % 8) (Nat.mod_lt _ (by decide)),
      ← List.append_assoc, List.replicate_append_replicate]
    congr 2 <;> omega
  · -- whole bytes only
    rename_i whole
    have bytes : 8 * ((len + 7) / 8) = len := by omega
    simp only [bits, flatMap_replicate_ff, bytes, Nat.sub_self, List.replicate_zero, List.append_nil]

theorem clear_isSome {bitmap : Bitmap} {i : Nat} (inside : i < bitmap.bits.length) : (bitmap.clear i).isSome := by
  rw [length_bits] at inside
  simp [clear, show i / 8 < bitmap.data.length by omega]

/-- `clear` turns off the bit at its index and keeps the others, the bytes
and the length. -/
theorem bits_clear {bitmap cleared : Bitmap} {i : Nat} (clearOk : bitmap.clear i = some cleared) :
    cleared.len = bitmap.len ∧ cleared.data.length = bitmap.data.length ∧
      ∀ j, cleared.bits[j]? = bitmap.bits[j]?.map (· && j != i) := by
  unfold clear at clearOk
  split at clearOk
  · cases clearOk
    refine ⟨rfl, List.length_modify .., fun j => ?_⟩
    simp only [bits, getElem?_flatMap_byteBits, List.getElem?_modify]
    cases bitmap.data[j / 8]? with
    | none => rfl
    | some byte =>
      by_cases sameByte : i / 8 = j / 8
      · -- the byte of bit `i`: the mask clears exactly that bit of it
        have sameBit : (j % 8 != i % 8) = (j != i) := by
          rw [Bool.eq_iff_iff, bne_iff_ne, bne_iff_ne]
          omega
        simp only [Option.map_eq_map, Option.map_some, if_pos sameByte, bitMask]
        rw [testBit_and_not (Nat.mod_lt _ (by decide)) (Nat.mod_lt _ (by decide)), sameBit]
      · have other : (j != i) = true := by
          rw [bne_iff_ne]
          omega
        simp only [Option.map_eq_map, Option.map_some, if_neg sameByte, other, Bool.and_true]
  · cases clearOk

/-- Clearing bits one after another, each inside the bitmap, turns off exactly
those bits. -/
theorem foldlM_clear {β : Type} (pos : β → Nat) :
    ∀ (items : List β) (bitmap : Bitmap), (∀ item ∈ items, pos item < bitmap.bits.length) →
      ∃ cleared, items.foldlM (fun b item => b.clear (pos item)) bitmap = some cleared ∧
        cleared.len = bitmap.len ∧
        ∀ j, cleared.bits[j]? = bitmap.bits[j]?.map fun bit => bit && decide (j ∉ items.map pos)
  | [], bitmap, _ => ⟨bitmap, rfl, rfl, fun j => by cases bitmap.bits[j]? <;> simp⟩
  | item :: rest, bitmap, inside => by
    obtain ⟨first, firstOk⟩ := Option.isSome_iff_exists.mp (clear_isSome (inside item List.mem_cons_self))
    obtain ⟨sameLen, sameBytes, firstBits⟩ := bits_clear firstOk
    have restInside : ∀ later ∈ rest, pos later < first.bits.length := by
      intro later member
      rw [length_bits, sameBytes, ← length_bits]
      exact inside later (List.mem_cons_of_mem _ member)
    obtain ⟨cleared, run, clearedLen, clearedBits⟩ := foldlM_clear pos rest first restInside
    refine ⟨cleared, by simp [List.foldlM_cons, firstOk, run], clearedLen.trans sameLen, fun j => ?_⟩
    rw [clearedBits, firstBits, Option.map_map]
    cases bitmap.bits[j]? with
    | none => rfl
    | some bit =>
      simp only [Option.map_some, Function.comp_apply, List.map_cons, List.mem_cons, not_or, Bool.decide_and]
      by_cases same : j = pos item
      · simp [same]
      · have other : (j != pos item) = true := bne_iff_ne.mpr same
        simp [other, same]

/-- `count_ones` of a slice inside the bitmap counts the set bits of its
window: the first and the last byte bit by bit, the bytes between whole. -/
theorem BitmapSlice.countOnes_eq (slice : BitmapSlice)
    (inside : slice.start + slice.len ≤ slice.bitmap.bits.length) :
    slice.countOnes = some (((slice.bitmap.bits.drop slice.start).take slice.len).count true) := by
  obtain ⟨⟨data, bitLen⟩, start, len⟩ := slice
  simp only [length_bits] at inside
  unfold BitmapSlice.countOnes
  dsimp only
  split
  · rename_i empty
    subst empty
    simp
  · rename_i nonempty
    have firstInside : start / 8 < data.length := by omega
    have lastInside : (start + len - 1) / 8 < data.length := by omega
    split
    · -- one byte holds the whole window
      rename_i sameByte
      have window := count_window_byte data (start / 8) (start % 8) ((start + len - 1) % 8 + 1) firstInside
        (by omega) (by omega)
      rw [show 8 * (start / 8) + start % 8 = start by omega,
        show (start + len - 1) % 8 + 1 - start % 8 = len by omega] at window
      rw [List.getElem?_eq_getElem firstInside, Option.map_some, bits, window]
    · -- the first byte from the start, whole bytes, the last byte up to the end
      rename_i apart
      have first := count_window_byte data (start / 8) (start % 8) 8 firstInside (by omega) (Nat.le_refl _)
      have last := count_window_byte data ((start + len - 1) / 8) 0 ((start + len - 1) % 8 + 1) lastInside
        (by omega) (by omega)
      have middle := count_window_bytes data (start / 8 + 1) ((start + len - 1) / 8)
      have splitFirst := count_window_split (data.flatMap byteBits) start (8 * (start / 8 + 1)) (start + len)
        (by omega) (by omega)
      have splitLast := count_window_split (data.flatMap byteBits) (8 * (start / 8 + 1))
        (8 * ((start + len - 1) / 8)) (start + len) (by omega) (by omega)
      rw [show 8 * (start / 8) + start % 8 = start by omega,
        show 8 - start % 8 = 8 * (start / 8 + 1) - start by omega] at first
      rw [Nat.add_sub_cancel_left] at splitFirst
      simp only [Nat.add_zero] at last
      simp only [List.getElem?_eq_getElem firstInside, List.getElem?_eq_getElem lastInside, Option.pure_def,
        Option.bind_eq_bind, Option.bind_some, bits, Option.some.injEq]
      rw [← first, ← last, ← middle, splitFirst, splitLast,
        show (start + len - 1) % 8 + 1 - 0 = start + len - 8 * ((start + len - 1) / 8) by omega]
      omega

theorem BitmapSlice.countZeros_eq (slice : BitmapSlice)
    (inside : slice.start + slice.len ≤ slice.bitmap.bits.length) :
    slice.countZeros =
      some (usizeSub slice.len (((slice.bitmap.bits.drop slice.start).take slice.len).count true)) := by
  rw [BitmapSlice.countZeros, BitmapSlice.countOnes_eq slice inside]
  rfl

end Bitmap

end Lance.RowIds
