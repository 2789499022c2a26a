import Lance.Library.BinarySearch
import Lance.Library.WordArith
import Mathlib.Data.List.Basic

/-! `EncodedU64Array`: a list of `u64` kept as 16- or 32-bit offsets from a
base, or as plain words, whichever `From<Vec<u64>>` finds wide enough for the
spread of the values. Each read of the source agrees with `iter`, the list the
array stands for, and an array built from a list stands for that list; on a
strictly increasing list `binary_search` finds what the standard search on the
list finds. Arithmetic on `u64` wraps, as a release build does. -/

namespace Lance.RowIds

open Lance.Library

/-- `EncodedU64Array`. -/
inductive EncodedU64Array where
  | u16 (base : UInt64) (offsets : List UInt16)
  | u32 (base : UInt64) (offsets : List UInt32)
  | u64 (values : List UInt64)
  deriving DecidableEq, Repr

namespace EncodedU64Array

def len : EncodedU64Array → Nat
  | u16 _ offsets => offsets.length
  | u32 _ offsets => offsets.length
  | u64 values => values.length

def iter : EncodedU64Array → List UInt64
  | u16 base offsets => offsets.map fun o => base + o.toUInt64
  | u32 base offsets => offsets.map fun o => base + o.toUInt64
  | u64 values => values

def get : EncodedU64Array → Nat → Option UInt64
  | u16 base offsets, i => if h : i < offsets.length then some (base + offsets[i].toUInt64) else none
  | u32 base offsets, i => if h : i < offsets.length then some (base + offsets[i].toUInt64) else none
  | u64 values, i => values[i]?

def min : EncodedU64Array → Option UInt64
  | u16 base offsets => if offsets.isEmpty then none else some base
  | u32 base offsets => if offsets.isEmpty then none else some base
  | u64 values => values.min?

def max : EncodedU64Array → Option UInt64
  | u16 base offsets => if offsets.isEmpty then none else offsets.max?.map fun top => base + top.toUInt64
  | u32 base offsets => if offsets.isEmpty then none else offsets.max?.map fun top => base + top.toUInt64
  | u64 values => values.max?

def first : EncodedU64Array → Option UInt64
  | u16 base offsets => if offsets.isEmpty then none else offsets.head?.map fun o => base + o.toUInt64
  | u32 base offsets => if offsets.isEmpty then none else offsets.head?.map fun o => base + o.toUInt64
  | u64 values => values.head?

def last : EncodedU64Array → Option UInt64
  | u16 base offsets => if offsets.isEmpty then none else offsets.getLast?.map fun o => base + o.toUInt64
  | u32 base offsets => if offsets.isEmpty then none else offsets.getLast?.map fun o => base + o.toUInt64
  | u64 values => values.getLast?

/-- `binary_search`: a value below the base is inserted first, one past the
widest offset last; otherwise the offsets are searched. -/
def binarySearch : EncodedU64Array → UInt64 → Except Nat Nat
  | u16 base offsets, val =>
    if val < base then .error 0
    else if val - base > 0xFFFF then .error offsets.length
    else Library.binarySearch offsets (val - base).toUInt16
  | u32 base offsets, val =>
    if val < base then .error 0
    else if val - base > 0xFFFFFFFF then .error offsets.length
    else Library.binarySearch offsets (val - base).toUInt32
  | u64 values, val => Library.binarySearch values val

/-- `From<Vec<u64>>`: offsets from the least value when the spread of the
values fits 16 or 32 bits. -/
def fromVec (values : List UInt64) : EncodedU64Array :=
  let min := values.min?.getD 0
  let max := values.max?.getD 0
  let range := max - min
  if values.isEmpty then u64 []
  else if range ≤ 0xFFFF then u16 min (values.map fun v => (v - min).toUInt16)
  else if range ≤ 0xFFFFFFFF then u32 min (values.map fun v => (v - min).toUInt32)
  else u64 values

/-! ### Every read agrees with `iter` -/

@[simp] theorem length_iter (array : EncodedU64Array) : array.iter.length = array.len := by
  cases array <;> simp [iter, len]

theorem get_eq (array : EncodedU64Array) (i : Nat) : array.get i = array.iter[i]? := by
  cases array with
  | u16 base offsets => by_cases inside : i < offsets.length <;> simp [get, iter, inside]
  | u32 base offsets => by_cases inside : i < offsets.length <;> simp [get, iter, inside]
  | u64 values => rfl

theorem first_eq (array : EncodedU64Array) : array.first = array.iter.head? := by
  cases array with
  | u16 base offsets => cases offsets <;> rfl
  | u32 base offsets => cases offsets <;> rfl
  | u64 values => rfl

theorem last_eq (array : EncodedU64Array) : array.last = array.iter.getLast? := by
  cases array with
  | u16 base offsets =>
    cases offsets with
    | nil => rfl
    | cons head tail => simp only [last, iter, List.isEmpty_cons, Bool.false_eq_true, ↓reduceIte, List.getLast?_map]
  | u32 base offsets =>
    cases offsets with
    | nil => rfl
    | cons head tail => simp only [last, iter, List.isEmpty_cons, Bool.false_eq_true, ↓reduceIte, List.getLast?_map]
  | u64 values => rfl

/-! ### Offsets from a base -/

theorem toNat_toUInt16_of_le {d : UInt64} (fits : d ≤ 0xFFFF) : d.toUInt16.toNat = d.toNat := by
  have small : d.toNat ≤ 0xFFFF := UInt64.le_iff_toNat_le.mp fits
  rw [UInt64.toNat_toUInt16]
  omega

theorem toNat_toUInt32_of_le {d : UInt64} (fits : d ≤ 0xFFFFFFFF) : d.toUInt32.toNat = d.toNat := by
  have small : d.toNat ≤ 0xFFFFFFFF := UInt64.le_iff_toNat_le.mp fits
  rw [UInt64.toNat_toUInt32]
  omega

theorem add_toUInt16_sub {base v : UInt64} (fits : v - base ≤ 0xFFFF) :
    base + (v - base).toUInt16.toUInt64 = v := by
  have narrow : (v - base).toUInt16.toUInt64 = v - base := by
    apply UInt64.toNat_inj.mp
    rw [UInt16.toNat_toUInt64, toNat_toUInt16_of_le fits]
  rw [narrow]
  grind

theorem add_toUInt32_sub {base v : UInt64} (fits : v - base ≤ 0xFFFFFFFF) :
    base + (v - base).toUInt32.toUInt64 = v := by
  have narrow : (v - base).toUInt32.toUInt64 = v - base := by
    apply UInt64.toNat_inj.mp
    rw [UInt32.toNat_toUInt64, toNat_toUInt32_of_le fits]
  rw [narrow]
  grind

theorem sub_le_sub_of_le {lo v hi : UInt64} (low : lo ≤ v) (high : v ≤ hi) : v - lo ≤ hi - lo := by
  rw [UInt64.le_iff_toNat_le, UInt64.toNat_sub_of_le _ _ low, UInt64.toNat_sub_of_le _ _ (UInt64.le_trans low high)]
  have := UInt64.le_iff_toNat_le.mp high
  omega

/-- The core library orders `UInt64` linearly, and its `max` (`maxOfLe`) keeps
the left argument on a tie; the lemmas on `List.max?` ask for that. -/
instance : Std.LawfulOrderLeftLeaningMax UInt64 :=
  leftLeaningMax_of_max_def UInt64.max_def (fun _ _ => UInt64.le_antisymm) UInt64.le_total

instance : Std.LawfulOrderLeftLeaningMax UInt32 :=
  leftLeaningMax_of_max_def UInt32.max_def (fun _ _ => UInt32.le_antisymm) UInt32.le_total

instance : Std.LawfulOrderLeftLeaningMax UInt16 :=
  leftLeaningMax_of_max_def UInt16.max_def (fun _ _ => UInt16.le_antisymm) UInt16.le_total

/-- The least and greatest of a list that is not empty, with every value
between them. -/
structure Bounds (values : List UInt64) (lo hi : UInt64) : Prop where
  min_eq : values.min? = some lo
  max_eq : values.max? = some hi
  low : ∀ v ∈ values, lo ≤ v
  high : ∀ v ∈ values, v ≤ hi

theorem Bounds.of_mem {values : List UInt64} {lo hi : UInt64} (loMem : lo ∈ values) (hiMem : hi ∈ values)
    (low : ∀ v ∈ values, lo ≤ v) (high : ∀ v ∈ values, v ≤ hi) : Bounds values lo hi :=
  ⟨List.min?_eq_some_iff.mpr ⟨loMem, low⟩, List.max?_eq_some_iff.mpr ⟨hiMem, high⟩, low, high⟩

theorem Bounds.eq_of_least {values : List UInt64} {lo hi a : UInt64} (bounds : Bounds values lo hi) (member : a ∈ values)
    (least : ∀ v ∈ values, a ≤ v) : lo = a :=
  Option.some.inj (bounds.min_eq.symm.trans (List.min?_eq_some_iff.mpr ⟨member, least⟩))

theorem Bounds.eq_of_greatest {values : List UInt64} {lo hi a : UInt64} (bounds : Bounds values lo hi)
    (member : a ∈ values) (greatest : ∀ v ∈ values, v ≤ a) : hi = a :=
  Option.some.inj (bounds.max_eq.symm.trans (List.max?_eq_some_iff.mpr ⟨member, greatest⟩))

theorem Bounds.unique {values : List UInt64} {lo hi lo' hi' : UInt64} (bounds : Bounds values lo hi)
    (other : Bounds values lo' hi') : lo = lo' ∧ hi = hi' :=
  ⟨Option.some.inj (bounds.min_eq.symm.trans other.min_eq), Option.some.inj (bounds.max_eq.symm.trans other.max_eq)⟩

theorem Bounds.ne_nil {values : List UInt64} {lo hi : UInt64} (bounds : Bounds values lo hi) : values ≠ [] := by
  rintro rfl
  cases bounds.min_eq

theorem bounds_of_ne_nil {values : List UInt64} (nonempty : values ≠ []) :
    ∃ lo hi, Bounds values lo hi := by
  obtain ⟨lo, least⟩ := Option.ne_none_iff_exists'.mp (mt List.min?_eq_none_iff.mp nonempty)
  obtain ⟨hi, greatest⟩ := Option.ne_none_iff_exists'.mp (mt List.max?_eq_none_iff.mp nonempty)
  exact ⟨lo, hi, least, greatest, (List.min?_eq_some_iff.mp least).2, (List.max?_eq_some_iff.mp greatest).2⟩

theorem fromVec_cases {values : List UInt64} {lo hi : UInt64} (bounds : Bounds values lo hi) :
    fromVec values =
      if hi - lo ≤ 0xFFFF then u16 lo (values.map fun v => (v - lo).toUInt16)
      else if hi - lo ≤ 0xFFFFFFFF then u32 lo (values.map fun v => (v - lo).toUInt32)
      else u64 values := by
  have nonempty : values.isEmpty = false := by
    cases values with
    | nil => exact absurd bounds.min_eq (by simp)
    | cons _ _ => rfl
  simp only [fromVec, bounds.min_eq, bounds.max_eq, Option.getD_some, nonempty, Bool.false_eq_true, ↓reduceIte]

@[simp] theorem iter_fromVec (values : List UInt64) : (fromVec values).iter = values := by
  rcases eq_or_ne values [] with empty | nonempty
  · subst empty
    rfl
  obtain ⟨lo, hi, bounds⟩ := bounds_of_ne_nil nonempty
  have spread : ∀ v ∈ values, v - lo ≤ hi - lo := fun v member =>
    sub_le_sub_of_le (bounds.low v member) (bounds.high v member)
  rw [fromVec_cases bounds]
  split_ifs with narrow wide
  · simp only [iter, List.map_map]
    conv_rhs => rw [← List.map_id values]
    exact List.map_congr_left fun v member => add_toUInt16_sub (UInt64.le_trans (spread v member) narrow)
  · simp only [iter, List.map_map]
    conv_rhs => rw [← List.map_id values]
    exact List.map_congr_left fun v member => add_toUInt32_sub (UInt64.le_trans (spread v member) wide)
  · rfl

@[simp] theorem len_fromVec (values : List UInt64) : (fromVec values).len = values.length := by
  rw [← length_iter, iter_fromVec]

/-! ### Searching and bounding an array built from a list -/

theorem sub_lt_sub_iff {lo a b : UInt64} (aLow : lo ≤ a) (bLow : lo ≤ b) : a - lo < b - lo ↔ a < b := by
  rw [UInt64.lt_iff_toNat_lt, UInt64.lt_iff_toNat_lt, UInt64.toNat_sub_of_le _ _ aLow, UInt64.toNat_sub_of_le _ _ bLow]
  have := UInt64.le_iff_toNat_le.mp aLow
  have := UInt64.le_iff_toNat_le.mp bLow
  omega

/-- The search over the offsets from the least value, narrowed to a word that
keeps offsets up to `bound` apart and in order, is the search over the values. -/
theorem binarySearch_offsets {β : Type} [LT β] [DecidableRel (α := β) (· < ·)] [DecidableEq β]
    {values : List UInt64} {lo hi val bound : UInt64} (bounds : Bounds values lo hi) (narrow : UInt64 → β)
    (spread : hi - lo ≤ bound) (low : lo ≤ val) (fits : val - lo ≤ bound)
    (narrow_lt : ∀ d e, d ≤ bound → e ≤ bound → (narrow d < narrow e ↔ d < e))
    (narrow_inj : ∀ d e, d ≤ bound → e ≤ bound → narrow d = narrow e → d = e) :
    Library.binarySearch (values.map fun v => narrow (v - lo)) (narrow (val - lo)) =
      Library.binarySearch values val := by
  have reach : ∀ a ∈ values, a - lo ≤ bound := fun a member =>
    UInt64.le_trans (sub_le_sub_of_le (bounds.low a member) (bounds.high a member)) spread
  apply binarySearch_map (f := fun v => narrow (v - lo)) values val
  · intro a member same
    have offsets : a - lo = val - lo := narrow_inj _ _ (reach a member) fits same
    grind
  · intro a member
    rw [narrow_lt _ _ (reach a member) fits, sub_lt_sub_iff (bounds.low a member) low]

/-- `binary_search` on an array built from a list is the search on the list: a
value below the base is placed first and one past the widest offset last,
where the search on the list places them too. -/
theorem binarySearch_fromVec (values : List UInt64) (val : UInt64) :
    (fromVec values).binarySearch val = Library.binarySearch values val := by
  rcases eq_or_ne values [] with empty | nonempty
  · subst empty
    rfl
  obtain ⟨lo, hi, bounds⟩ := bounds_of_ne_nil nonempty
  have first : val < lo → Library.binarySearch values val = .error 0 := fun below =>
    binarySearch_of_forall_gt (fun _ _ ab ba => Std.lt_irrefl (Std.lt_trans ab ba)) fun a member =>
      UInt64.lt_of_lt_of_le below (bounds.low a member)
  have last : ∀ bound, hi - lo ≤ bound → lo ≤ val → val - lo > bound →
      Library.binarySearch values val = .error values.length := fun bound spread low beyond =>
    binarySearch_of_forall_lt fun a member =>
      (sub_lt_sub_iff (bounds.low a member) low).mp
        (UInt64.lt_of_le_of_lt (UInt64.le_trans (sub_le_sub_of_le (bounds.low a member) (bounds.high a member))
          spread) beyond)
  rw [fromVec_cases bounds]
  split_ifs with narrow wide
  · simp only [binarySearch, List.length_map]
    split_ifs with below beyond
    · exact (first below).symm
    · exact (last _ narrow (UInt64.not_lt.mp below) beyond).symm
    · refine binarySearch_offsets bounds UInt64.toUInt16 narrow (UInt64.not_lt.mp below) (UInt64.not_lt.mp beyond)
        (fun d e dFits eFits => ?_) (fun d e dFits eFits same => ?_)
      · rw [UInt16.lt_iff_toNat_lt, UInt64.lt_iff_toNat_lt, toNat_toUInt16_of_le dFits, toNat_toUInt16_of_le eFits]
      · rw [← UInt64.toNat_inj, ← toNat_toUInt16_of_le dFits, ← toNat_toUInt16_of_le eFits, same]
  · simp only [binarySearch, List.length_map]
    split_ifs with below beyond
    · exact (first below).symm
    · exact (last _ wide (UInt64.not_lt.mp below) beyond).symm
    · refine binarySearch_offsets bounds UInt64.toUInt32 wide (UInt64.not_lt.mp below) (UInt64.not_lt.mp beyond)
        (fun d e dFits eFits => ?_) (fun d e dFits eFits same => ?_)
      · rw [UInt32.lt_iff_toNat_lt, UInt64.lt_iff_toNat_lt, toNat_toUInt32_of_le dFits, toNat_toUInt32_of_le eFits]
      · rw [← UInt64.toNat_inj, ← toNat_toUInt32_of_le dFits, ← toNat_toUInt32_of_le eFits, same]
  · rfl

theorem binarySearch_fromVec_of_sorted {values : List UInt64} (sorted : values.Pairwise (· < ·)) (val : UInt64) :
    (fromVec values).binarySearch val =
      if val ∈ values then .ok (values.countP (· < val)) else .error (values.countP (· < val)) := by
  rw [binarySearch_fromVec, binarySearch_of_sorted sorted]

theorem min_fromVec (values : List UInt64) : (fromVec values).min = values.min? := by
  rcases eq_or_ne values [] with empty | nonempty
  · subst empty
    rfl
  obtain ⟨lo, hi, bounds⟩ := bounds_of_ne_nil nonempty
  rw [fromVec_cases bounds]
  split_ifs
  · simp [min, nonempty, bounds.min_eq]
  · simp [min, nonempty, bounds.min_eq]
  · rfl

theorem max?_offsets {β : Type} [Max β] [LE β] [Std.IsLinearOrder β] [Std.LawfulOrderMax β]
    {values : List UInt64} {lo hi bound : UInt64} (bounds : Bounds values lo hi) (narrow : UInt64 → β)
    (spread : hi - lo ≤ bound) (narrow_le : ∀ d e, d ≤ bound → e ≤ bound → (narrow d ≤ narrow e ↔ d ≤ e)) :
    (values.map fun v => narrow (v - lo)).max? = some (narrow (hi - lo)) := by
  rw [List.max?_eq_some_iff]
  refine ⟨List.mem_map_of_mem (List.max?_eq_some_iff.mp bounds.max_eq).1, ?_⟩
  intro offset member
  obtain ⟨a, aMember, rfl⟩ := List.mem_map.mp member
  have below := sub_le_sub_of_le (bounds.low a aMember) (bounds.high a aMember)
  exact (narrow_le _ _ (UInt64.le_trans below spread) spread).mpr below

theorem max_fromVec (values : List UInt64) : (fromVec values).max = values.max? := by
  rcases eq_or_ne values [] with empty | nonempty
  · subst empty
    rfl
  obtain ⟨lo, hi, bounds⟩ := bounds_of_ne_nil nonempty
  rw [fromVec_cases bounds]
  split_ifs with narrow wide
  · have top := max?_offsets bounds UInt64.toUInt16 narrow fun d e dFits eFits => by
      rw [UInt16.le_iff_toNat_le, UInt64.le_iff_toNat_le, toNat_toUInt16_of_le dFits, toNat_toUInt16_of_le eFits]
    rw [max, if_neg (by simpa using nonempty), top, Option.map_some, add_toUInt16_sub narrow, bounds.max_eq]
  · have top := max?_offsets bounds UInt64.toUInt32 wide fun d e dFits eFits => by
      rw [UInt32.le_iff_toNat_le, UInt64.le_iff_toNat_le, toNat_toUInt32_of_le dFits, toNat_toUInt32_of_le eFits]
    rw [max, if_neg (by simpa using nonempty), top, Option.map_some, add_toUInt32_sub wide, bounds.max_eq]
  · rfl

end EncodedU64Array

end Lance.RowIds
