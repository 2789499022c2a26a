import Mathlib.Data.List.Dedup
import Mathlib.Data.Nat.Nth
import Lance.Library.Count
import Lance.Library.WordArith
import Lance.RowIds.Index

/-! `OffsetMapper` of `lance-core`'s deletion utilities: it maps the `n`-th row a
fragment still holds to its offset in the fragment, the `n`-th offset that the
deletion vector does not hold. Each call searches upwards from a guess, the
offset moved on by the gap the last call found, and below the offset moved on by
every deletion; the left end of the search is kept from call to call, so the
offsets must come in increasing order.

Offsets are `u32` values, held as `Nat`. The arithmetic is a debug build's, in
which an overflow panics, and a panic is `none`. The `loop` of `map_offset` runs
for at most `fuel` rounds. -/

namespace Lance.RowIds.DeletionVector

open Lance.Library

/-- `len`: the number of deleted offsets, each once, as the set or the bitmap holds them. -/
def len (dv : DeletionVector) : Nat := dv.deleted.dedup.length

/-- `range_cardinality`: how many offsets of `lo..hi` the vector holds. -/
def rangeCardinality (dv : DeletionVector) (lo hi : Nat) : Nat :=
  (List.range' lo (hi - lo)).countP fun i => dv.contains (UInt32.ofNat i)

def Undeleted (dv : DeletionVector) (offset : Nat) : Prop := dv.contains (UInt32.ofNat offset) = false

instance (dv : DeletionVector) : DecidablePred dv.Undeleted := fun _ =>
  inferInstanceAs (Decidable (_ = _))

theorem rangeCardinality_zero (dv : DeletionVector) (n : Nat) :
    dv.rangeCardinality 0 n = Nat.count (fun k => ¬ dv.Undeleted k) n := by
  simp [rangeCardinality, Nat.count, Undeleted, List.range_eq_range']

theorem count_deleted_le_len (dv : DeletionVector) {n : Nat} (fits : n ≤ 2 ^ 32) :
    Nat.count (fun k => ¬ dv.Undeleted k) n ≤ dv.len := by
  have injective : ∀ a ∈ (List.range n).filter (fun k => ¬ dv.Undeleted k),
      ∀ b ∈ (List.range n).filter (fun k => ¬ dv.Undeleted k), UInt32.ofNat a = UInt32.ofNat b → a = b := by
    intro a aMember b bMember same
    have aSmall : a < 2 ^ 32 := by simp at aMember; omega
    have bSmall : b < 2 ^ 32 := by simp at bMember; omega
    rw [← UInt32.toNat_ofNat_of_lt' aSmall, ← UInt32.toNat_ofNat_of_lt' bSmall, same]
  have distinct := (List.nodup_range.filter _).map_on injective
  have held : ((List.range n).filter fun k => ¬ dv.Undeleted k).map UInt32.ofNat ⊆ dv.deleted.dedup := by
    intro x member
    obtain ⟨k, kMember, rfl⟩ := List.mem_map.mp member
    simpa [Undeleted, contains] using (List.mem_filter.mp kMember).2
  calc Nat.count (fun k => ¬ dv.Undeleted k) n
      = (((List.range n).filter fun k => ¬ dv.Undeleted k).map UInt32.ofNat).length := by
        rw [List.length_map, Nat.count, List.countP_eq_length_filter]
    _ ≤ dv.len := (List.subperm_of_subset distinct held).length_le

/-! ### The offset a row maps to -/

/-- `t` is the `offset`-th offset, from 0, that the vector does not hold. -/
structure Target (dv : DeletionVector) (offset t : Nat) : Prop where
  undeleted : dv.Undeleted t
  counted : Nat.count dv.Undeleted t = offset

namespace Target

variable {dv : DeletionVector} {offset t : Nat}

theorem eq_nth (target : Target dv offset t) : Nat.nth dv.Undeleted offset = t := by
  rw [← target.counted]
  exact Nat.nth_count target.undeleted

theorem eq_add (target : Target dv offset t) : t = offset + Nat.count (fun k => ¬ dv.Undeleted k) t := by
  have shared := count_add_count_not (p := dv.Undeleted) t
  rw [target.counted] at shared
  omega

theorem le_of_le {offset' t' : Nat} (target : Target dv offset t) (later : Target dv offset' t')
    (ordered : offset ≤ offset') : t ≤ t' := by
  by_contra before
  have atMost := (count_succ_le_iff_lt target.undeleted target.counted t').mpr (by omega)
  rw [Nat.count_succ, if_pos later.undeleted, later.counted] at atMost
  omega

theorem gap_le {offset' t' : Nat} (target : Target dv offset t) (later : Target dv offset' t')
    (ordered : offset ≤ offset') : t - offset ≤ t' - offset' := by
  have grows := Nat.count_monotone (fun k => ¬ dv.Undeleted k) (target.le_of_le later ordered)
  have here := target.eq_add
  have there := later.eq_add
  omega

theorem unique {t' : Nat} (target : Target dv offset t) (other : Target dv offset t') : t = t' :=
  Nat.count_injective target.undeleted other.undeleted (target.counted.trans other.counted.symm)

end Target

theorem exists_target (dv : DeletionVector) {offset : Nat} (fits : offset + dv.len < 2 ^ 32 - 1) :
    ∃ t, Target dv offset t ∧ t ≤ offset + dv.len := by
  have shared := count_add_count_not (p := dv.Undeleted) (offset + dv.len + 1)
  have deleted := dv.count_deleted_le_len (n := offset + dv.len + 1) (by omega)
  obtain ⟨t, below, undeleted, counted⟩ :=
    @exists_count_eq_of_lt_count dv.Undeleted _ offset (offset + dv.len + 1) (by omega)
  exact ⟨t, ⟨undeleted, counted⟩, by omega⟩

theorem Target.le_add_len {dv : DeletionVector} {offset t : Nat} (target : Target dv offset t)
    (fits : offset + dv.len < 2 ^ 32 - 1) : t ≤ offset + dv.len := by
  obtain ⟨found, other, within⟩ := exists_target dv fits
  rw [target.unique other]
  exact within

section Compare

variable {dv : DeletionVector} {offset t : Nat} (target : Target dv offset t)
include target

theorem lt_add_rangeCardinality_iff (mid : Nat) :
    mid < offset + dv.rangeCardinality 0 (mid + 1) ↔ mid < t := by
  have shared := count_add_count_not (p := dv.Undeleted) (mid + 1)
  rw [rangeCardinality_zero, ← count_succ_le_iff_lt target.undeleted target.counted mid]
  omega

theorem eq_add_rangeCardinality_iff (mid : Nat) :
    (mid = offset + dv.rangeCardinality 0 (mid + 1) ∧ dv.contains (UInt32.ofNat mid) = false) ↔ mid = t := by
  have shared := count_add_count_not (p := dv.Undeleted) (mid + 1)
  rw [rangeCardinality_zero]
  constructor
  · rintro ⟨atMid, undeleted⟩
    exact eq_of_count_succ_eq target.undeleted target.counted undeleted (by omega)
  · rintro rfl
    have reached := Nat.count_succ dv.Undeleted mid
    rw [if_pos target.undeleted, target.counted] at reached
    exact ⟨by omega, target.undeleted⟩

end Compare

end Lance.RowIds.DeletionVector

namespace Lance.Core

open Lance.Library Lance.RowIds

/-- `OffsetMapper`: the deletion vector, with the left end of the search and the
gap that the last call left behind. -/
structure OffsetMapper where
  dv : DeletionVector
  left : Nat
  lastDiff : Nat

namespace OffsetMapper

def new (dv : DeletionVector) : OffsetMapper := ⟨dv, 0, 0⟩

/-- The `loop` of `map_offset` from the guess `mid`, for at most `fuel` rounds:
the offset found, with the left end it leaves behind. -/
def mapOffsetLoop (dv : DeletionVector) (offset : Nat) : Nat → Nat → Nat → Nat → Option (Nat × Nat)
  | 0, _, _, _ => none
  | fuel + 1, left, mid, right => do
    let next ← debugAdd 32 mid 1
    let deletedInRange := dv.rangeCardinality 0 next % 2 ^ 32
    let bound ← debugAdd 32 offset deletedInRange
    if mid = bound ∧ dv.contains (UInt32.ofNat mid) = false then
      pure (mid, left)
    else if mid < bound then
      -- `assert_ne!(self.left, mid + 1)`
      if left = next then none
      else
        let width ← debugSub right next
        mapOffsetLoop dv offset fuel next (← debugAdd 32 next (width / 2)) right
    else
      let width ← debugSub mid left
      mapOffsetLoop dv offset fuel left (← debugAdd 32 left (width / 2)) mid

def mapOffset (fuel : Nat) (mapper : OffsetMapper) (offset : Nat) : Option (Nat × OffsetMapper) := do
  let mid ← debugAdd 32 offset mapper.lastDiff
  let right ← debugAdd 32 offset (mapper.dv.len % 2 ^ 32)
  let (found, left) ← mapOffsetLoop mapper.dv offset fuel mapper.left mid right
  let lastDiff ← debugSub found offset
  pure (found, { mapper with left, lastDiff })

/-- Successive calls of `map_offset` on one mapper. -/
def mapOffsets (fuel : Nat) : OffsetMapper → List Nat → Option (List Nat)
  | _, [] => some []
  | mapper, offset :: rest => do
    let (found, mapper) ← mapper.mapOffset fuel offset
    return found :: (← mapper.mapOffsets fuel rest)

/-! ### One round of the search -/

section Round

variable {dv : DeletionVector} {offset : Nat} (fits : offset + dv.len < 2 ^ 32 - 1)
include fits

theorem bound_eq {mid : Nat} (small : mid < 2 ^ 32 - 1) :
    debugAdd 32 mid 1 = some (mid + 1) ∧
      debugAdd 32 offset (dv.rangeCardinality 0 (mid + 1) % 2 ^ 32) =
        some (offset + dv.rangeCardinality 0 (mid + 1)) := by
  have deleted := dv.count_deleted_le_len (n := mid + 1) (by omega)
  rw [← DeletionVector.rangeCardinality_zero] at deleted
  rw [Nat.mod_eq_of_lt (by omega)]
  exact ⟨debugAdd_of_lt (by omega), debugAdd_of_lt (by omega)⟩

variable {t : Nat} (target : DeletionVector.Target dv offset t)
include target

theorem mapOffsetLoop_found {fuel left right : Nat} (small : t < 2 ^ 32 - 1) :
    mapOffsetLoop dv offset (fuel + 1) left t right = some (t, left) := by
  obtain ⟨next, bound⟩ := bound_eq fits small
  have found := (DeletionVector.eq_add_rangeCardinality_iff target t).mpr rfl
  simp only [mapOffsetLoop, next, bound, Option.bind_eq_bind, Option.bind_some, if_pos found, Option.pure_def]

theorem mapOffsetLoop_before {fuel left mid right : Nat} (before : mid < t) (within : t ≤ right)
    (small : right < 2 ^ 32 - 1) (fresh : left ≠ mid + 1) :
    mapOffsetLoop dv offset (fuel + 1) left mid right =
      mapOffsetLoop dv offset fuel (mid + 1) (mid + 1 + (right - (mid + 1)) / 2) right := by
  obtain ⟨next, bound⟩ := bound_eq fits (show mid < 2 ^ 32 - 1 by omega)
  have notFound : ¬ (mid = offset + dv.rangeCardinality 0 (mid + 1) ∧ dv.contains (UInt32.ofNat mid) = false) :=
    fun found => by rw [DeletionVector.eq_add_rangeCardinality_iff target] at found; omega
  have less := (DeletionVector.lt_add_rangeCardinality_iff target mid).mpr before
  simp only [mapOffsetLoop, next, bound, Option.bind_eq_bind, Option.bind_some, if_neg notFound, if_pos less,
    if_neg fresh, debugSub_of_le (show mid + 1 ≤ right by omega), debugAdd_of_lt (show mid + 1 + (right - (mid + 1)) / 2 < 2 ^ 32 by omega)]

theorem mapOffsetLoop_after {fuel left mid right : Nat} (after : t < mid) (ordered : left ≤ mid)
    (small : mid < 2 ^ 32 - 1) :
    mapOffsetLoop dv offset (fuel + 1) left mid right =
      mapOffsetLoop dv offset fuel left (left + (mid - left) / 2) mid := by
  obtain ⟨next, bound⟩ := bound_eq fits small
  have notFound : ¬ (mid = offset + dv.rangeCardinality 0 (mid + 1) ∧ dv.contains (UInt32.ofNat mid) = false) :=
    fun found => by rw [DeletionVector.eq_add_rangeCardinality_iff target] at found; omega
  have notLess : ¬ mid < offset + dv.rangeCardinality 0 (mid + 1) :=
    fun less => by rw [DeletionVector.lt_add_rangeCardinality_iff target] at less; omega
  simp only [mapOffsetLoop, next, bound, Option.bind_eq_bind, Option.bind_some, if_neg notFound, if_neg notLess,
    debugSub_of_le ordered, debugAdd_of_lt (show left + (mid - left) / 2 < 2 ^ 32 by omega)]

/-- The halving search around the target ends at it within `f + 1` rounds when
fewer than `2 ^ f` offsets lie between its ends, and leaves a left end that does
not pass the target. -/
theorem mapOffsetLoop_search (f : Nat) : ∀ {left right : Nat}, left ≤ t → t ≤ right → right < 2 ^ 32 - 1 →
    right - left < 2 ^ f → ∃ left', mapOffsetLoop dv offset (f + 1) left (left + (right - left) / 2) right =
      some (t, left') ∧ left' ≤ t := by
  induction f with
  | zero =>
    intro left right atLeast atMost small narrow
    have found : left + (right - left) / 2 = t := by
      rw [Nat.pow_zero] at narrow
      omega
    exact ⟨left, by rw [found]; exact mapOffsetLoop_found fits target (by omega), atLeast⟩
  | succ f ih =>
    intro left right atLeast atMost small narrow
    rw [Nat.pow_succ] at narrow
    rcases Nat.lt_trichotomy (left + (right - left) / 2) t with before | found | after
    · rw [mapOffsetLoop_before fits target before atMost small (by omega)]
      exact ih (by omega) atMost small (by omega)
    · exact ⟨left, by rw [found]; exact mapOffsetLoop_found fits target (by omega), atLeast⟩
    · rw [mapOffsetLoop_after fits target after (by omega) (by omega)]
      exact @ih left (left + (right - left) / 2) atLeast (by omega) (by omega) (by omega)

theorem mapOffsetLoop_guess {fuel left mid : Nat} (enough : 34 ≤ fuel) (ordered : left ≤ mid) (guess : mid ≤ t) :
    ∃ left', mapOffsetLoop dv offset fuel left mid (offset + dv.len) = some (t, left') ∧ left' ≤ t := by
  obtain ⟨g, rfl⟩ : ∃ g, fuel = g + 1 + 1 := ⟨fuel - 2, by omega⟩
  have within := target.le_add_len fits
  rcases Nat.lt_or_eq_of_le guess with before | rfl
  · rw [mapOffsetLoop_before fits target before within (by omega) (by omega)]
    have wide : 2 ^ 32 ≤ 2 ^ g := Nat.pow_le_pow_right (by omega) (by omega)
    exact mapOffsetLoop_search fits target g (by omega) within (by omega) (by omega)
  · exact ⟨left, mapOffsetLoop_found fits target (by omega), ordered⟩

end Round

/-! ### Calls in increasing order -/

/-- A mapper ready for `offset`: its guess does not pass the target, and the
left end kept from the last call does not pass the guess. -/
structure Ready (mapper : OffsetMapper) (offset : Nat) : Prop where
  left_le : mapper.left ≤ offset + mapper.lastDiff
  guess_le : ∀ t, DeletionVector.Target mapper.dv offset t → offset + mapper.lastDiff ≤ t

theorem ready_new (dv : DeletionVector) (offset : Nat) : (new dv).Ready offset where
  left_le := Nat.zero_le _
  guess_le t target := by
    have := target.eq_add
    simp only [new]
    omega

/-- One call maps the offset to its target, and leaves the mapper ready for any
offset from it on. -/
theorem mapOffset_ready {mapper : OffsetMapper} {offset fuel : Nat} (ready : mapper.Ready offset)
    (fits : offset + mapper.dv.len < 2 ^ 32 - 1) (enough : 34 ≤ fuel) :
    ∃ next, mapper.mapOffset fuel offset = some (Nat.nth mapper.dv.Undeleted offset, next) ∧
      next.dv = mapper.dv ∧ ∀ later, offset ≤ later → next.Ready later := by
  obtain ⟨t, target, within⟩ := DeletionVector.exists_target mapper.dv fits
  have gap := target.eq_add
  obtain ⟨left, run, leftLe⟩ := mapOffsetLoop_guess fits target enough ready.left_le (ready.guess_le t target)
  refine ⟨{ mapper with left, lastDiff := t - offset }, ?_, rfl, fun later ordered => ⟨?_, fun t' other => ?_⟩⟩
  · have guessFits : offset + mapper.lastDiff < 2 ^ 32 := by
      have := ready.guess_le t target
      omega
    rw [target.eq_nth]
    simp only [mapOffset, debugAdd_of_lt guessFits, Nat.mod_eq_of_lt (show mapper.dv.len < 2 ^ 32 by omega),
      debugAdd_of_lt (show offset + mapper.dv.len < 2 ^ 32 by omega), run, debugSub_of_le (show offset ≤ t by omega),
      Option.bind_eq_bind, Option.bind_some, Option.pure_def]
  · show left ≤ later + (t - offset)
    omega
  · have := target.gap_le other ordered
    have := other.eq_add
    show later + (t - offset) ≤ t'
    omega

theorem mapOffsets_ready {fuel : Nat} (enough : 34 ≤ fuel) : ∀ {mapper : OffsetMapper} {offsets : List Nat},
    offsets.Pairwise (· ≤ ·) → (∀ o ∈ offsets, o + mapper.dv.len < 2 ^ 32 - 1) → (∀ o ∈ offsets, mapper.Ready o) →
      mapper.mapOffsets fuel offsets = some (offsets.map (Nat.nth mapper.dv.Undeleted))
  | _, [], _, _, _ => rfl
  | mapper, offset :: rest, sorted, fits, ready => by
    obtain ⟨next, call, sameDv, nextReady⟩ :=
      mapOffset_ready (ready offset List.mem_cons_self) (fits offset List.mem_cons_self) enough
    obtain ⟨later, restSorted⟩ := List.pairwise_cons.mp sorted
    have restFits : ∀ o ∈ rest, o + next.dv.len < 2 ^ 32 - 1 := by
      rw [sameDv]
      exact fun o member => fits o (List.mem_cons_of_mem _ member)
    have restRun := mapOffsets_ready enough restSorted restFits fun o member => nextReady o (later o member)
    rw [sameDv] at restRun
    simp only [mapOffsets, call, restRun, List.map_cons, Option.bind_eq_bind, Option.bind_some, Option.pure_def]

theorem mapOffsets_new_eq_map_nth (dv : DeletionVector) {offsets : List Nat} (sorted : offsets.Pairwise (· ≤ ·))
    (fits : ∀ o ∈ offsets, o + dv.len < 2 ^ 32 - 1) {fuel : Nat} (enough : 34 ≤ fuel) :
    (new dv).mapOffsets fuel offsets = some (offsets.map (Nat.nth dv.Undeleted)) :=
  mapOffsets_ready enough sorted fits fun o _ => ready_new dv o

theorem mapOffsets_new_eq_map_nth_at_first_rows_deleted :
    [0, 1, 2, 2, 7].Pairwise (· ≤ ·) ∧
      (∀ o ∈ [0, 1, 2, 2, 7], o + (⟨[0, 1, 2]⟩ : DeletionVector).len < 2 ^ 32 - 1) ∧
      (new ⟨[0, 1, 2]⟩).mapOffsets 34 [0, 1, 2, 2, 7] =
        some ([0, 1, 2, 2, 7].map (Nat.nth (DeletionVector.Undeleted ⟨[0, 1, 2]⟩))) :=
  ⟨by decide, by decide, mapOffsets_new_eq_map_nth ⟨[0, 1, 2]⟩ (by decide) (by decide) (by decide)⟩

example : (new ⟨[0, 1, 2]⟩).mapOffsets 34 [0, 1, 2, 2, 7] = some [3, 4, 5, 5, 10] := by decide

end OffsetMapper

end Lance.Core
