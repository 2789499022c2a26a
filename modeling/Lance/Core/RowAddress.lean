import Mathlib.Data.Nat.Bitwise

/-! Row addresses of `lance-core`: a `u64` whose upper 32 bits name a fragment
and whose lower 32 bits give the row's offset in it. Both halves are read back
as exact quotient and remainder by `2 ^ 32`, so splitting and joining are
inverse. -/

namespace Lance.Core

/-- `RowAddress`: one row of one fragment, as its raw `u64`. -/
@[ext] structure RowAddress where
  raw : UInt64
  deriving DecidableEq, Repr

namespace RowAddress

/-- `new_from_parts`: the fragment id shifted above the row offset. -/
def newFromParts (fragmentId rowOffset : UInt32) : RowAddress :=
  ⟨(fragmentId.toUInt64 <<< 32) ||| rowOffset.toUInt64⟩

/-- `first_row`: offset zero of a fragment. -/
def firstRow (fragmentId : UInt32) : RowAddress := newFromParts fragmentId 0

/-- `fragment_id`: the upper half. -/
def fragmentId (addr : RowAddress) : UInt32 := (addr.raw >>> 32).toUInt32

/-- `row_offset`: the lower half. -/
def rowOffset (addr : RowAddress) : UInt32 := addr.raw.toUInt32

@[simp] theorem mk_raw (addr : RowAddress) : RowAddress.mk addr.raw = addr := rfl

theorem toNat_newFromParts (fragmentId rowOffset : UInt32) :
    (newFromParts fragmentId rowOffset).raw.toNat = fragmentId.toNat * 2 ^ 32 + rowOffset.toNat := by
  have fragmentFits := fragmentId.toNat_lt
  have offsetFits := rowOffset.toNat_lt
  -- the shifted fragment id stays below `2 ^ 64`, and its low half is clear for the offset
  have shifted : fragmentId.toNat <<< 32 % 2 ^ 64 = fragmentId.toNat <<< 32 := by
    rw [Nat.shiftLeft_eq]
    omega
  simp only [newFromParts, UInt64.toNat_or, UInt64.toNat_shiftLeft, UInt32.toNat_toUInt64,
    show UInt64.toNat 32 % 64 = 32 from rfl, shifted]
  rw [← Nat.shiftLeft_add_eq_or_of_lt offsetFits, Nat.shiftLeft_eq]

theorem toNat_fragmentId (addr : RowAddress) : addr.fragmentId.toNat = addr.raw.toNat / 2 ^ 32 := by
  have fits := addr.raw.toNat_lt
  simp only [fragmentId, UInt64.toNat_toUInt32, UInt64.toNat_shiftRight,
    show UInt64.toNat 32 % 64 = 32 from rfl, Nat.shiftRight_eq_div_pow]
  omega

theorem toNat_rowOffset (addr : RowAddress) : addr.rowOffset.toNat = addr.raw.toNat % 2 ^ 32 := by
  simp only [rowOffset, UInt64.toNat_toUInt32]

@[simp] theorem fragmentId_newFromParts (fragmentId rowOffset : UInt32) :
    (newFromParts fragmentId rowOffset).fragmentId = fragmentId := by
  apply UInt32.toNat_inj.mp
  have offsetFits := rowOffset.toNat_lt
  rw [toNat_fragmentId, toNat_newFromParts]
  omega

@[simp] theorem rowOffset_newFromParts (fragmentId rowOffset : UInt32) :
    (newFromParts fragmentId rowOffset).rowOffset = rowOffset := by
  apply UInt32.toNat_inj.mp
  have offsetFits := rowOffset.toNat_lt
  rw [toNat_rowOffset, toNat_newFromParts]
  omega

@[simp] theorem newFromParts_fragmentId_rowOffset (addr : RowAddress) :
    newFromParts addr.fragmentId addr.rowOffset = addr := by
  apply RowAddress.ext
  apply UInt64.toNat_inj.mp
  rw [toNat_newFromParts, toNat_fragmentId, toNat_rowOffset]
  omega

theorem eq_iff_parts {addr other : RowAddress} :
    addr = other ↔ addr.fragmentId = other.fragmentId ∧ addr.rowOffset = other.rowOffset := by
  constructor
  · rintro rfl
    exact ⟨rfl, rfl⟩
  · rintro ⟨fragments, offsets⟩
    rw [← newFromParts_fragmentId_rowOffset addr, ← newFromParts_fragmentId_rowOffset other, fragments, offsets]

theorem newFromParts_inj {fragmentId fragmentId' rowOffset rowOffset' : UInt32} :
    newFromParts fragmentId rowOffset = newFromParts fragmentId' rowOffset' ↔
      fragmentId = fragmentId' ∧ rowOffset = rowOffset' := by
  constructor
  · intro same
    have fragments := congrArg RowAddress.fragmentId same
    have offsets := congrArg RowAddress.rowOffset same
    simp only [fragmentId_newFromParts, rowOffset_newFromParts] at fragments offsets
    exact ⟨fragments, offsets⟩
  · rintro ⟨rfl, rfl⟩
    rfl

end RowAddress

end Lance.Core
