import Mathlib

/-! The arithmetic of Rust's unsigned words that the row-id code uses:
`checked_add`, `saturating_add` and `saturating_sub` on `u64`, `+`, `-` and `*` on a word in a
debug build, subtraction on `usize` (64 bits wide, wrapping as a release build does),
and the saturating `u128` byte costs with their conversion to `usize`. Each
comes with what it is on `Nat`. -/

namespace Lance.Library

def checkedAdd (a b : UInt64) : Option UInt64 := if a.toNat + b.toNat < 2 ^ 64 then some (a + b) else none

/-- `a + b` on an unsigned word of `w` bits in a debug build, which panics on
overflow; a word is its value. -/
def debugAdd (w a b : Nat) : Option Nat := if a + b < 2 ^ w then some (a + b) else none

def debugSub (a b : Nat) : Option Nat := if b ≤ a then some (a - b) else none

/-- `a * b` on an unsigned word of `w` bits in a debug build, which panics on
overflow. -/
def debugMul (w a b : Nat) : Option Nat := if a * b < 2 ^ w then some (a * b) else none

def saturatingAdd (a b : UInt64) : UInt64 := if a.toNat + b.toNat < 2 ^ 64 then a + b else 0xFFFFFFFFFFFFFFFF

def saturatingSub (a b : UInt64) : UInt64 := if a < b then 0 else a - b

/-- `a - b` on `usize`. -/
def usizeSub (a b : Nat) : Nat := (UInt64.ofNat a - UInt64.ofNat b).toNat

def u128Sub (a b : Nat) : Nat := (a + 2 ^ 128 - b) % 2 ^ 128

/-- A `u128` result of `saturating_add` or `saturating_mul`. -/
def saturateU128 (v : Nat) : Nat := min v (2 ^ 128 - 1)

def saturateUsize (v : Nat) : Nat := min v (2 ^ 64 - 1)

/-- `div_ceil`: the quotient, one more when there is a remainder. -/
def divCeil (a b : Nat) : Nat := a / b + if a % b > 0 then 1 else 0

def ilog2 (n : Nat) : Option Nat := if n = 0 then none else some n.log2

/-- `usize::is_power_of_two`. -/
def isPowerOfTwo (n : Nat) : Bool := n == 2 ^ n.log2

theorem checkedAdd_eq_some {a b c : UInt64} : checkedAdd a b = some c ↔ a.toNat + b.toNat < 2 ^ 64 ∧ a + b = c := by
  unfold checkedAdd
  split
  · simp_all
  · rename_i overflow
    simp only [reduceCtorEq, false_iff, not_and]
    intro fits
    exact absurd fits overflow

theorem checkedAdd_eq_none {a b : UInt64} : checkedAdd a b = none ↔ 2 ^ 64 ≤ a.toNat + b.toNat := by
  unfold checkedAdd
  split <;> simp <;> omega

theorem debugAdd_of_lt {w a b : Nat} (fits : a + b < 2 ^ w) : debugAdd w a b = some (a + b) := if_pos fits

theorem debugSub_of_le {a b : Nat} (le : b ≤ a) : debugSub a b = some (a - b) := if_pos le

theorem debugMul_of_lt {w a b : Nat} (fits : a * b < 2 ^ w) : debugMul w a b = some (a * b) := if_pos fits

theorem toNat_add_of_lt {a b : UInt64} (fits : a.toNat + b.toNat < 2 ^ 64) : (a + b).toNat = a.toNat + b.toNat := by
  rw [UInt64.toNat_add, Nat.mod_eq_of_lt fits]

theorem toNat_add_ofNat {a : UInt64} {j : Nat} (fits : a.toNat + j < 2 ^ 64) : (a + UInt64.ofNat j).toNat = a.toNat + j := by
  have small : j < 2 ^ 64 := by omega
  rw [UInt64.toNat_add, UInt64.toNat_ofNat_of_lt' small, Nat.mod_eq_of_lt fits]

theorem toNat_saturatingAdd {a b : UInt64} (fits : a.toNat + b.toNat < 2 ^ 64) :
    (saturatingAdd a b).toNat = a.toNat + b.toNat := by
  rw [saturatingAdd, if_pos fits, toNat_add_of_lt fits]

theorem saturatingAdd_ofNat {a b : Nat} (fits : a + b < 2 ^ 64) :
    saturatingAdd (UInt64.ofNat a) (UInt64.ofNat b) = UInt64.ofNat (a + b) := by
  have aLt : a < 2 ^ 64 := by omega
  have bLt : b < 2 ^ 64 := by omega
  have aSmall : (UInt64.ofNat a).toNat = a := UInt64.toNat_ofNat_of_lt' aLt
  have bSmall : (UInt64.ofNat b).toNat = b := UInt64.toNat_ofNat_of_lt' bLt
  rw [saturatingAdd, if_pos (by omega), UInt64.ofNat_add]

theorem divCeil_of_dvd {a b : Nat} (exact : b ∣ a) : divCeil a b = a / b := by
  rw [divCeil, Nat.mod_eq_zero_of_dvd exact, if_neg (Nat.lt_irrefl 0), Nat.add_zero]

theorem le_mul_divCeil {a b : Nat} (positive : 0 < b) : a ≤ b * divCeil a b := by
  have split := Nat.div_add_mod a b
  unfold divCeil
  split
  · rw [Nat.mul_add, Nat.mul_one]
    have := Nat.mod_lt a positive
    omega
  · rw [Nat.add_zero]
    omega

theorem divCeil_le {a b : Nat} (positive : 0 < b) : divCeil a b ≤ a := by
  unfold divCeil
  split
  · rename_i remains
    have wide : 1 < b := by
      rcases Nat.lt_or_ge 1 b with wide | narrow
      · exact wide
      · have one : b = 1 := by omega
        rw [one, Nat.mod_one] at remains
        omega
    have := Nat.div_lt_self (Nat.lt_of_lt_of_le remains (Nat.mod_le a b)) wide
    omega
  · simp only [Nat.add_zero]
    exact Nat.div_le_self a b

@[simp] theorem ilog2_two_pow (exponent : Nat) : ilog2 (2 ^ exponent) = some exponent := by
  rw [ilog2, if_neg (Nat.ne_of_gt (Nat.two_pow_pos exponent)), Nat.log2_two_pow]

@[simp] theorem isPowerOfTwo_two_pow (exponent : Nat) : isPowerOfTwo (2 ^ exponent) = true := by
  rw [isPowerOfTwo, Nat.log2_two_pow, beq_self_eq_true]

@[simp] theorem toNat_saturatingSub (a b : UInt64) : (saturatingSub a b).toNat = a.toNat - b.toNat := by
  unfold saturatingSub
  split
  · rename_i below
    have := UInt64.lt_iff_toNat_lt.mp below
    simp only [UInt64.toNat_zero]
    omega
  · rename_i notBelow
    have := UInt64.lt_iff_toNat_lt.not.mp notBelow
    rw [UInt64.toNat_sub_of_le _ _ (UInt64.le_iff_toNat_le.mpr (by omega))]

theorem usizeSub_of_le {a b : Nat} (fits : a < 2 ^ 64) (le : b ≤ a) : usizeSub a b = a - b := by
  have small : b < 2 ^ 64 := Nat.lt_of_le_of_lt le fits
  have ordered : UInt64.ofNat b ≤ UInt64.ofNat a := by
    rw [UInt64.le_iff_toNat_le, UInt64.toNat_ofNat', UInt64.toNat_ofNat', Nat.mod_eq_of_lt fits,
      Nat.mod_eq_of_lt small]
    exact le
  rw [usizeSub, UInt64.toNat_sub_of_le _ _ ordered, UInt64.toNat_ofNat', UInt64.toNat_ofNat',
    Nat.mod_eq_of_lt fits, Nat.mod_eq_of_lt small]

theorem u128Sub_of_le {a b : Nat} (fits : a < 2 ^ 128) (le : b ≤ a) : u128Sub a b = a - b := by
  unfold u128Sub
  rw [show a + 2 ^ 128 - b = (a - b) + 2 ^ 128 by omega, Nat.add_mod_right, Nat.mod_eq_of_lt (by omega)]

/-- A `max` that returns the right argument exactly when the left is at most
it leans left in the sense of the core order classes, which the lemmas on
`List.max?` ask for. -/
theorem leftLeaningMax_of_max_def {α : Type} [Max α] [LE α] [DecidableLE α] (max_def : ∀ x y : α, max x y = if x ≤ y then y else x)
    (antisymm : ∀ x y : α, x ≤ y → y ≤ x → x = y) (total : ∀ x y : α, x ≤ y ∨ y ≤ x) :
    Std.LawfulOrderLeftLeaningMax α where
  max_eq_left a b below := by
    rw [max_def]
    split
    · exact antisymm _ _ below ‹_›
    · rfl
  max_eq_right a b notBelow := by
    rw [max_def]
    split
    · rfl
    · exact absurd ((total a b).resolve_left ‹_›) notBelow

end Lance.Library
