import Mathlib.Order.WithBot
import Mathlib.Data.List.Infix

/-! The queries a scalar index answers on one column (`SargableQuery` in
`scalar.rs`), over the column's values. A `ScalarValue` of the column's type
is either null or a value, and DataFusion orders such scalars with null
first and values by the type's total order (floats by `total_cmp`, NaN
above every number): that is `WithBot α` for a linearly ordered `α`.

What a row satisfies is stated here once, as the meaning the indexes are
checked against. -/

namespace Lance.Index

/-- `ScalarValue` of a column whose non-null values are `α`. -/
abbrev ScalarValue (α : Type) := WithBot α

/-- `std::ops::Bound`. -/
inductive Bound (β : Type) where
  | included (value : β)
  | excluded (value : β)
  | unbounded

/-- `SargableQuery`; the full-text variant carries nothing the scalar indexes read. -/
inductive SargableQuery (α : Type) where
  | range (start finish : Bound (ScalarValue α))
  | isIn (values : List (ScalarValue α))
  | equals (target : ScalarValue α)
  | fullTextSearch
  | isNull
  | likePrefix (pfx : ScalarValue α)

/-- What the indexes read of a column type besides the order of its values. -/
structure ColumnType (α : Type) where
  /-- `is_nan` of a float value; false for the other types. -/
  isNan : α → Bool
  /-- `nan_scalar`: the NaN of a float type. -/
  nanScalar : Option α
  /-- The string of a `Utf8` or `LargeUtf8` scalar. -/
  utf8 : α → Option String
  /-- The scalar of the same string variant holding another string. -/
  withUtf8 : α → String → α

/-- `next_unicode_char`: the next scalar value, skipping the surrogates. -/
def nextUnicodeChar (c : Char) : Option Char :=
  let next := c.val + 1
  let next := if 0xD800 ≤ next ∧ next ≤ 0xDFFF then 0xE000 else next
  if valid : next.isValidChar then some ⟨next, valid⟩ else none

/-- The loop of `compute_next_prefix` over the chars from the last: the first
that has a successor is replaced by it and the chars after it dropped. -/
def incrementLast : List Char → Option (List Char)
  | [] => none
  | c :: earlier =>
    match nextUnicodeChar c with
    | some next => some (next :: earlier)
    | none => incrementLast earlier

/-- `compute_next_prefix`: the least string above every string that starts
with `pfx`, if any (`LIKE 'foo%'` becomes the range `[foo, fop)`). -/
def computeNextPrefix (pfx : String) : Option String :=
  if pfx = "" then none
  else (incrementLast pfx.toList.reverse).map fun chars => String.ofList chars.reverse

example : computeNextPrefix "foo" = some "fop" := by decide

section Meaning

variable {α : Type} [LinearOrder α]

/-- A value lies above a lower bound. A comparison with a null bound is
null, never true. -/
def Bound.Below : Bound (ScalarValue α) → α → Prop
  | .included (s : α), v => s ≤ v
  | .excluded (s : α), v => s < v
  | .unbounded, _ => True
  | _, _ => False

def Bound.Above : Bound (ScalarValue α) → α → Prop
  | .included (e : α), v => v ≤ e
  | .excluded (e : α), v => v < e
  | .unbounded, _ => True
  | _, _ => False

/-- The rows a query selects, by their value (`none` for null), in SQL's
logic: a null value satisfies only `IsNull`, and a comparison with a null
scalar is never true. `strings` gives the string of a value of a string
column; a prefix query selects the strings that start with the prefix. -/
def SargableQuery.Satisfies (strings : α → Option String) : SargableQuery α → Option α → Prop
  | .range start finish, some v => start.Below v ∧ finish.Above v
  | .isIn values, some v => (v : ScalarValue α) ∈ values
  | .equals target, some v => target = v
  | .isNull, none => True
  | .likePrefix (pfx : α), some v =>
    ∃ p t, strings pfx = some p ∧ strings v = some t ∧ p.toList <+: t.toList
  | _, _ => False

end Meaning

end Lance.Index
