import Mathlib.Data.Nat.Bitwise

/-! The bits of a byte, least significant first, and the byte intrinsics of
the standard library that a bitmap over bytes uses: the test of one bit,
`count_ones`, `trailing_zeros`, and clearing the lowest set bit with
`b & (b - 1)`. A list of bytes is read as one list of bits, eight to a byte;
the position of the `n`-th set bit and the set bits of a window of it are
computed from the bytes. -/

namespace Lance.Library

def testBit (byte : UInt8) (i : Nat) : Bool := byte &&& (1 <<< UInt8.ofNat i) != 0

def countOnes (byte : UInt8) : Nat := ((List.range 8).filter (testBit byte)).length

def trailingZeros (byte : UInt8) : Nat := ((List.range 8).find? (testBit byte)).getD 8

def countBitsIn (byte : UInt8) (lo hi : Nat) : Nat := ((List.range' lo (hi - lo)).filter (testBit byte)).length


def byteBits (byte : UInt8) : List Bool := (List.range 8).map (testBit byte)

/-- The list with its first `true` turned `false`. -/
def clearFirst : List Bool → List Bool
  | [] => []
  | true :: rest => false :: rest
  | false :: rest => false :: clearFirst rest

/-- The position of the `n`-th `true` of a list, counting from zero. -/
def nthTrue : List Bool → Nat → Option Nat
  | [], _ => none
  | true :: _, 0 => some 0
  | true :: rest, n + 1 => (nthTrue rest n).map (· + 1)
  | false :: rest, n => (nthTrue rest n).map (· + 1)

@[simp] theorem length_byteBits (byte : UInt8) : (byteBits byte).length = 8 := by simp [byteBits]

theorem countOnes_eq_count (byte : UInt8) : countOnes byte = (byteBits byte).count true := by
  simp [countOnes, byteBits, List.count, List.countP_eq_length_filter, List.filter_map, Function.comp_def]

/-! ### Clearing the lowest set bit -/

theorem count_clearFirst : ∀ bits : List Bool, (clearFirst bits).count true = bits.count true - 1
  | [] => rfl
  | true :: rest => by simp [clearFirst]
  | false :: rest => by simp [clearFirst, count_clearFirst rest]

theorem nthTrue_clearFirst : ∀ (bits : List Bool) (n : Nat), nthTrue (clearFirst bits) n = nthTrue bits (n + 1)
  | [], _ => rfl
  | true :: _, _ => rfl
  | false :: rest, n => by simp only [clearFirst, nthTrue, nthTrue_clearFirst rest n]

theorem nthTrue_zero : ∀ bits : List Bool, 0 < bits.count true → nthTrue bits 0 = some (bits.idxOf true)
  | [], empty => absurd empty (by simp)
  | true :: _, _ => rfl
  | false :: rest, present => by
    have restSome : 0 < rest.count true := by simpa using present
    rw [nthTrue, nthTrue_zero rest restSome, List.idxOf_cons]
    rfl

set_option maxRecDepth 4000 in
theorem byteBits_and_sub_one (byte : UInt8) : byteBits (byte &&& (byte - 1)) = clearFirst (byteBits byte) := by
  have every : ∀ n < 256, byteBits (UInt8.ofNat n &&& (UInt8.ofNat n - 1)) = clearFirst (byteBits (UInt8.ofNat n)) := by
    decide
  rw [← UInt8.ofNat_toNat (x := byte)]
  exact every byte.toNat byte.toNat_lt

set_option maxRecDepth 4000 in
theorem trailingZeros_eq_idxOf (byte : UInt8) : trailingZeros byte = (byteBits byte).idxOf true := by
  have every : ∀ n < 256, trailingZeros (UInt8.ofNat n) = (byteBits (UInt8.ofNat n)).idxOf true := by
    decide
  rw [← UInt8.ofNat_toNat (x := byte)]
  exact every byte.toNat byte.toNat_lt

theorem foldl_range_eq_iterate {β : Type} (step : β → β) :
    ∀ (count : Nat) (start : β), (List.range count).foldl (fun acc _ => step acc) start = step^[count] start
  | 0, _ => rfl
  | count + 1, start => by
    rw [List.range_succ, List.foldl_append, foldl_range_eq_iterate step count start, List.foldl_cons,
      List.foldl_nil, Function.iterate_succ_apply']

/-- The select of one byte: clearing the lowest set bit `r` times leaves the
`r`-th set bit the lowest, where `trailing_zeros` finds it. -/
theorem trailingZeros_clearLowest :
    ∀ (r : Nat) (byte : UInt8), r < countOnes byte →
      some (trailingZeros ((List.range r).foldl (fun b _ => b &&& (b - 1)) byte)) = nthTrue (byteBits byte) r := by
  intro r
  induction r with
  | zero =>
    intro byte present
    rw [countOnes_eq_count] at present
    rw [List.range_zero, List.foldl_nil, trailingZeros_eq_idxOf, nthTrue_zero _ present]
  | succ r ih =>
    intro byte enough
    have cleared : byteBits (byte &&& (byte - 1)) = clearFirst (byteBits byte) := byteBits_and_sub_one byte
    have restEnough : r < countOnes (byte &&& (byte - 1)) := by
      rw [countOnes_eq_count, cleared, count_clearFirst, ← countOnes_eq_count]
      omega
    rw [foldl_range_eq_iterate, Function.iterate_succ_apply, ← foldl_range_eq_iterate, ih _ restEnough,
      cleared, nthTrue_clearFirst]

/-! ### Positions of set bits across lists -/

theorem nthTrue_append_of_lt :
    ∀ (xs ys : List Bool) (n : Nat), n < xs.count true → nthTrue (xs ++ ys) n = nthTrue xs n
  | [], _, _, inside => absurd inside (by simp)
  | true :: _, _, 0, _ => rfl
  | true :: rest, ys, n + 1, inside => by
    have restInside : n < rest.count true := by simp at inside; omega
    simp only [List.cons_append, nthTrue, nthTrue_append_of_lt rest ys n restInside]
  | false :: rest, ys, n, inside => by
    have restInside : n < rest.count true := by simpa using inside
    simp only [List.cons_append, nthTrue, nthTrue_append_of_lt rest ys n restInside]

theorem nthTrue_append_of_le :
    ∀ (xs ys : List Bool) (n : Nat), xs.count true ≤ n →
      nthTrue (xs ++ ys) n = (nthTrue ys (n - xs.count true)).map (· + xs.length)
  | [], ys, n, _ => by simp
  | true :: rest, ys, 0, past => absurd past (by simp)
  | true :: rest, ys, n + 1, past => by
    have restPast : rest.count true ≤ n := by simp at past; omega
    simp only [List.cons_append, nthTrue, nthTrue_append_of_le rest ys n restPast, Option.map_map,
      List.count_cons_self, List.length_cons, Nat.add_sub_add_right]
    rfl
  | false :: rest, ys, n, past => by
    have restPast : rest.count true ≤ n := by simpa using past
    simp only [List.cons_append, nthTrue, nthTrue_append_of_le rest ys n restPast, Option.map_map,
      List.length_cons]
    simp [Function.comp_def, Nat.add_assoc]

theorem nthTrue_eq_some_iff : ∀ (bits : List Bool) (n j : Nat),
    nthTrue bits n = some j ↔ bits[j]? = some true ∧ (bits.take j).count true = n
  | [], n, j => by simp [nthTrue]
  | true :: rest, 0, j => by
    cases j with
    | zero => simp [nthTrue]
    | succ j => simp [nthTrue]
  | true :: rest, n + 1, j => by
    cases j with
    | zero => simp [nthTrue]
    | succ j => simp [nthTrue, nthTrue_eq_some_iff rest n j]
  | false :: rest, n, j => by
    cases j with
    | zero => simp [nthTrue]
    | succ j => simp [nthTrue, nthTrue_eq_some_iff rest n j]

theorem nthTrue_eq_none_iff : ∀ (bits : List Bool) (n : Nat), nthTrue bits n = none ↔ bits.count true ≤ n
  | [], n => by simp [nthTrue]
  | true :: rest, 0 => by simp [nthTrue]
  | true :: rest, n + 1 => by simp [nthTrue, nthTrue_eq_none_iff rest n]
  | false :: rest, n => by simp [nthTrue, nthTrue_eq_none_iff rest n]

/-! ### Single bits as bits of the byte's number -/

theorem toNat_one_shiftLeft_ofNat {k : Nat} (small : k < 8) : ((1 : UInt8) <<< UInt8.ofNat k).toNat = 2 ^ k := by
  have fits : k < 2 ^ 8 := by omega
  simp [UInt8.toNat_shiftLeft, UInt8.toNat_ofNat_of_lt' fits, Nat.mod_eq_of_lt small, Nat.one_shiftLeft]
  exact Nat.pow_lt_pow_right (by decide) small

theorem testBit_eq_toNat (byte : UInt8) {k : Nat} (small : k < 8) : testBit byte k = byte.toNat.testBit k := by
  unfold testBit
  rw [Bool.eq_iff_iff, bne_iff_ne, ne_eq, ← UInt8.toNat_inj, UInt8.toNat_and, toNat_one_shiftLeft_ofNat small,
    Nat.and_two_pow, UInt8.toNat_zero]
  cases byte.toNat.testBit k <;> simp

theorem testBit_and_not {byte : UInt8} {k c : Nat} (smallK : k < 8) (smallC : c < 8) :
    testBit (byte &&& ~~~(1 <<< UInt8.ofNat k)) c = (testBit byte c && c != k) := by
  -- the complement of a single bit, on the eight bits of a byte
  have mask : ∀ k < 8, ∀ c < 8, (255 - 2 ^ k).testBit c = (c != k) := by decide
  rw [testBit_eq_toNat _ smallC, testBit_eq_toNat _ smallC, UInt8.toNat_and, Nat.testBit_and, UInt8.toNat_not,
    toNat_one_shiftLeft_ofNat smallK]
  simp [mask k smallK c smallC]

theorem byteBits_ff : byteBits 0xFF = List.replicate 8 true := by decide

/-! ### The bits of a list of bytes, eight to a byte -/

theorem getElem?_flatMap_byteBits : ∀ (data : List UInt8) (j : Nat),
    (data.flatMap byteBits)[j]? = data[j / 8]?.map (testBit · (j % 8))
  | [], j => rfl
  | byte :: rest, j => by
    rw [List.flatMap_cons]
    by_cases first : j < 8
    · rw [List.getElem?_append_left (by simpa using first), Nat.div_eq_of_lt first, Nat.mod_eq_of_lt first]
      simp [byteBits, first]
    · have later : j / 8 = (j - 8) / 8 + 1 := by omega
      rw [List.getElem?_append_right (by simpa using Nat.le_of_not_lt first), length_byteBits,
        getElem?_flatMap_byteBits rest (j - 8), later, List.getElem?_cons_succ,
        show (j - 8) % 8 = j % 8 by omega]

theorem drop_flatMap_byteBits : ∀ (data : List UInt8) (k : Nat),
    (data.flatMap byteBits).drop (8 * k) = (data.drop k).flatMap byteBits
  | [], k => by simp
  | byte :: rest, 0 => rfl
  | byte :: rest, k + 1 => by
    rw [List.flatMap_cons, show 8 * (k + 1) = 8 + 8 * k by omega, ← List.drop_drop,
      List.drop_left' (length_byteBits byte), drop_flatMap_byteBits rest k, List.drop_succ_cons]

theorem take_flatMap_byteBits : ∀ (data : List UInt8) (k : Nat),
    (data.flatMap byteBits).take (8 * k) = (data.take k).flatMap byteBits
  | [], k => by simp
  | byte :: rest, 0 => rfl
  | byte :: rest, k + 1 => by
    rw [List.flatMap_cons, List.take_append, List.take_of_length_le (by rw [length_byteBits]; omega), length_byteBits,
      show 8 * (k + 1) - 8 = 8 * k by omega, take_flatMap_byteBits rest k, List.take_succ_cons, List.flatMap_cons]

theorem count_flatMap_byteBits (data : List UInt8) :
    (data.flatMap byteBits).count true = (data.map countOnes).sum := by
  simp [List.count_flatMap, Function.comp_def, ← countOnes_eq_count]

theorem countBitsIn_eq (byte : UInt8) {lo hi : Nat} (ordered : lo ≤ hi) (small : hi ≤ 8) :
    countBitsIn byte lo hi = (((byteBits byte).drop lo).take (hi - lo)).count true := by
  have window : ((List.range 8).drop lo).take (hi - lo) = List.range' lo (hi - lo) := by
    rw [List.range_eq_range', List.drop_range', List.take_range'_of_length_ge (by omega)]
    simp
  rw [countBitsIn, byteBits, ← List.map_drop, ← List.map_take, window]
  simp [List.count, List.countP_eq_length_filter, List.filter_map, Function.comp_def]

theorem count_window_split (bits : List Bool) (lo mid hi : Nat) (low : lo ≤ mid) (high : mid ≤ hi) :
    ((bits.drop lo).take (hi - lo)).count true =
      ((bits.drop lo).take (mid - lo)).count true + ((bits.drop mid).take (hi - mid)).count true := by
  rw [show hi - lo = (mid - lo) + (hi - mid) by omega, List.take_add, List.count_append, List.drop_drop,
    show lo + (mid - lo) = mid by omega]

theorem count_window_byte (data : List UInt8) (k x y : Nat) (inside : k < data.length) (ordered : x ≤ y)
    (small : y ≤ 8) :
    (((data.flatMap byteBits).drop (8 * k + x)).take (y - x)).count true = countBitsIn data[k] x y := by
  rw [← List.drop_drop, drop_flatMap_byteBits, List.drop_eq_getElem_cons inside, List.flatMap_cons,
    List.drop_append_of_le_length (by simp; omega), List.take_append_of_le_length (by simp; omega),
    countBitsIn_eq _ ordered small]

theorem count_window_bytes (data : List UInt8) (a e : Nat) :
    (((data.flatMap byteBits).drop (8 * a)).take (8 * e - 8 * a)).count true =
      (((data.drop a).take (e - a)).map countOnes).sum := by
  rw [drop_flatMap_byteBits, show 8 * e - 8 * a = 8 * (e - a) by omega, take_flatMap_byteBits,
    count_flatMap_byteBits]

end Lance.Library
