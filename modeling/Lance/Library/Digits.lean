import Mathlib.Data.Nat.Digits.Defs

/-! A number written as a fixed count of digits in a base, least significant
first, as values of a fixed width are laid side by side in a wider word. Read
back by `Nat.ofDigits`, the digits give the number when it fits in them, and
digits below the base are the writing of the number they spell. -/

namespace Lance.Library

/-- The low `count` digits of `n` in `base`, least significant first. -/
def fixedDigits (base : Nat) : Nat → Nat → List Nat
  | 0, _ => []
  | count + 1, n => n % base :: fixedDigits base count (n / base)

@[simp] theorem length_fixedDigits (base : Nat) : ∀ count n, (fixedDigits base count n).length = count
  | 0, _ => rfl
  | count + 1, n => by rw [fixedDigits, List.length_cons, length_fixedDigits base count]

theorem lt_of_mem_fixedDigits {base : Nat} (positive : 0 < base) :
    ∀ {count n digit : Nat}, digit ∈ fixedDigits base count n → digit < base
  | 0, _, _, member => absurd member List.not_mem_nil
  | count + 1, n, digit, member => by
    rcases List.mem_cons.mp member with rfl | later
    · exact Nat.mod_lt n positive
    · exact lt_of_mem_fixedDigits positive later

theorem ofDigits_fixedDigits {base : Nat} (positive : 0 < base) :
    ∀ {count n : Nat}, n < base ^ count → Nat.ofDigits base (fixedDigits base count n) = n
  | 0, n, small => by
    rw [Nat.pow_zero] at small
    rw [fixedDigits, Nat.ofDigits_nil]
    omega
  | count + 1, n, small => by
    have rest : n / base < base ^ count := Nat.div_lt_of_lt_mul (by rw [Nat.mul_comm, ← Nat.pow_succ]; exact small)
    rw [fixedDigits, Nat.ofDigits_cons, ofDigits_fixedDigits positive rest, Nat.mod_add_div]

theorem ofDigits_lt_pow {base : Nat} :
    ∀ {digits : List Nat}, (∀ digit ∈ digits, digit < base) → Nat.ofDigits base digits < base ^ digits.length
  | [], _ => by simp [Nat.ofDigits]
  | digit :: rest, small => by
    have first := small digit List.mem_cons_self
    have later := ofDigits_lt_pow fun other member => small other (List.mem_cons_of_mem _ member)
    rw [Nat.ofDigits_cons, List.length_cons, Nat.pow_succ]
    calc digit + base * Nat.ofDigits base rest
        < base * Nat.ofDigits base rest + base := by omega
      _ = base * (Nat.ofDigits base rest + 1) := (Nat.mul_succ _ _).symm
      _ ≤ base * base ^ rest.length := Nat.mul_le_mul_left _ later
      _ = base ^ rest.length * base := Nat.mul_comm _ _

theorem fixedDigits_ofDigits {base : Nat} :
    ∀ {digits : List Nat}, (∀ digit ∈ digits, digit < base) →
      fixedDigits base digits.length (Nat.ofDigits base digits) = digits
  | [], _ => rfl
  | digit :: rest, small => by
    have first := small digit List.mem_cons_self
    have positive : 0 < base := Nat.lt_of_le_of_lt (Nat.zero_le _) first
    have later := fixedDigits_ofDigits fun other member => small other (List.mem_cons_of_mem _ member)
    rw [List.length_cons, fixedDigits, Nat.ofDigits_cons, Nat.add_mul_mod_self_left, Nat.mod_eq_of_lt first,
      Nat.add_mul_div_left _ _ positive, Nat.div_eq_of_lt first, Nat.zero_add, later]

end Lance.Library
