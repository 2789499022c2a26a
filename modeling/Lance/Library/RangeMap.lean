import Mathlib.Data.List.Pairwise
import Mathlib.Data.List.Induction
import Mathlib.Data.List.Sort
import Mathlib.Order.Basic

/-! Maps from inclusive ranges of keys to values, as `rangemap`'s
`RangeInclusiveMap` offers them. `rangemap` is a crate of its own, outside the
source tree: what a user of it may rely on is given here as `RangeMapOps`, its
`from_iter`, `get` and `iter`, with `RangeMapOps.Lawful`, the laws of a map
built from ranges. `InsertionRangeMap`, which keeps its inserts in a list, is one
map that meets them and lets a user be evaluated on small inputs. An insert
there overwrites what earlier ranges held on the keys it covers, so a key is
looked up in the last inserted range that covers it. -/

namespace Lance.Library

universe u v

variable {κ : Type u} {ν : Type v} [LE κ]

def Covers (range : κ × κ) (key : κ) : Prop := range.1 ≤ key ∧ key ≤ range.2

def Apart (range other : κ × κ) : Prop := ∀ key, ¬ (Covers range key ∧ Covers other key)

theorem Apart.symm {range other : κ × κ} (apart : Apart range other) : Apart other range :=
  fun key both => apart key ⟨both.2, both.1⟩

theorem apart_of_lt [LT κ] [Std.IsLinearOrder κ] [Std.LawfulOrderLT κ] {range other : κ × κ}
    (before : range.2 < other.1) : Apart range other := by
  rintro key ⟨⟨_, upTo⟩, ⟨atLeast, _⟩⟩
  exact absurd (Std.lt_of_le_of_lt upTo before) (Std.not_lt.mpr atLeast)

theorem not_covers_of_end_lt [LT κ] [Std.IsLinearOrder κ] [Std.LawfulOrderLT κ] {range : κ × κ} {key : κ}
    (past : range.2 < key) : ¬ Covers range key :=
  fun covers => Std.not_lt.mpr covers.2 past

theorem not_covers_of_lt_start [LT κ] [Std.IsLinearOrder κ] [Std.LawfulOrderLT κ] {range : κ × κ} {key : κ}
    (before : key < range.1) : ¬ Covers range key :=
  fun covers => Std.not_lt.mpr covers.1 before

variable [DecidableLE κ]

instance (range : κ × κ) (key : κ) : Decidable (Covers range key) :=
  inferInstanceAs (Decidable (_ ∧ _))

/-- A range map that keeps the ranges with their values in the order they were
inserted. -/
structure InsertionRangeMap (κ : Type u) (ν : Type v) where
  inserted : List ((κ × κ) × ν)

namespace InsertionRangeMap

def fromIter (entries : List ((κ × κ) × ν)) : Option (InsertionRangeMap κ ν) :=
  if entries.all fun entry => entry.1.1 ≤ entry.1.2 then some ⟨entries⟩ else none

/-- The value of the last inserted range that covers the key. -/
def get (map : InsertionRangeMap κ ν) (key : κ) : Option ν :=
  (map.inserted.reverse.find? fun entry => decide (Covers entry.1 key)).map Prod.snd

theorem fromIter_eq_some {entries : List ((κ × κ) × ν)} (ordered : ∀ entry ∈ entries, entry.1.1 ≤ entry.1.2) :
    fromIter entries = some ⟨entries⟩ := by
  have all : (entries.all fun entry => decide (entry.1.1 ≤ entry.1.2)) = true := by
    simpa only [List.all_eq_true, decide_eq_true_eq] using ordered
  rw [fromIter, if_pos all]

theorem inserted_of_fromIter {entries : List ((κ × κ) × ν)} {map : InsertionRangeMap κ ν}
    (built : fromIter entries = some map) : map.inserted = entries := by
  unfold fromIter at built
  split at built
  · cases built
    rfl
  · cases built

theorem ordered_of_fromIter {entries : List ((κ × κ) × ν)} {map : InsertionRangeMap κ ν}
    (built : fromIter entries = some map) : ∀ entry ∈ map.inserted, entry.1.1 ≤ entry.1.2 := by
  unfold fromIter at built
  split at built
  · rename_i all
    cases built
    simpa only [List.all_eq_true, decide_eq_true_eq] using all
  · cases built

theorem exists_of_get_eq_some {map : InsertionRangeMap κ ν} {key : κ} {value : ν}
    (found : map.get key = some value) : ∃ entry ∈ map.inserted, Covers entry.1 key ∧ entry.2 = value := by
  obtain ⟨entry, first, rfl⟩ := Option.map_eq_some_iff.mp found
  have member := List.mem_reverse.mp (List.mem_of_find?_eq_some first)
  exact ⟨entry, member, by simpa using List.find?_some first, rfl⟩

theorem get_eq_some_of_mem {map : InsertionRangeMap κ ν} (apart : map.inserted.Pairwise fun a b => Apart a.1 b.1)
    {entry : (κ × κ) × ν} (member : entry ∈ map.inserted) {key : κ} (covers : Covers entry.1 key) :
    map.get key = some entry.2 := by
  obtain ⟨found, first⟩ : ∃ found, map.inserted.reverse.find? (fun entry => decide (Covers entry.1 key)) = some found :=
    Option.isSome_iff_exists.mp (List.find?_isSome.mpr ⟨entry, List.mem_reverse.mpr member, decide_eq_true covers⟩)
  have foundMember := List.mem_reverse.mp (List.mem_of_find?_eq_some first)
  have foundCovers : Covers found.1 key := by simpa using List.find?_some first
  -- two different ranges of the map cannot both cover the key
  have : Std.Symm fun a b : (κ × κ) × ν => Apart a.1 b.1 := ⟨fun _ _ apart => apart.symm⟩
  have same : found = entry := by
    by_contra differ
    exact apart.forall foundMember member differ key ⟨foundCovers, covers⟩
  rw [get, first, same, Option.map_some]

theorem get_append (map : InsertionRangeMap κ ν) (entry : (κ × κ) × ν) (key : κ) :
    (⟨map.inserted ++ [entry]⟩ : InsertionRangeMap κ ν).get key =
      if Covers entry.1 key then some entry.2 else map.get key := by
  by_cases covers : Covers entry.1 key
  · simp [get, covers]
  · simp [get, covers]

end InsertionRangeMap

/-! ## Iteration

`iter` walks the ranges the map holds, in order of their starts. An insert cuts
what it covers out of the ranges it overlaps, so what is left of them ends one
key before it and starts one key after it: `StepLite` gives those keys. -/

/-- `StepLite`: the key before and the key after a key, each where there is one. -/
structure StepLite (κ : Type u) [LE κ] [LT κ] where
  subOne : κ → κ
  addOne : κ → κ
  le_subOne_iff : ∀ {low key : κ}, low < key → ∀ other, other ≤ subOne key ↔ other < key
  addOne_le_iff : ∀ {key high : κ}, key < high → ∀ other, addOne key ≤ other ↔ key < other

def StepLite.uint64 : StepLite UInt64 where
  subOne key := key - 1
  addOne key := key + 1
  le_subOne_iff {low key} below other := by
    have fits := UInt64.lt_iff_toNat_lt.mp below
    have positive : (1 : UInt64) ≤ key := UInt64.le_iff_toNat_le.mpr (by simp; omega)
    rw [UInt64.le_iff_toNat_le, UInt64.lt_iff_toNat_lt, UInt64.toNat_sub_of_le _ _ positive]
    simp only [UInt64.reduceToNat]
    omega
  addOne_le_iff {key high} below other := by
    have fits := UInt64.lt_iff_toNat_lt.mp below
    have bounded := high.toNat_lt
    rw [UInt64.le_iff_toNat_le, UInt64.lt_iff_toNat_lt, UInt64.toNat_add]
    simp only [UInt64.reduceToNat]
    rw [Nat.mod_eq_of_lt (by omega)]
    omega

section Iteration

variable [LT κ] [Std.IsLinearOrder κ] [Std.LawfulOrderLT κ] [DecidableLT κ] (step : StepLite κ)

/-- What is left of a held range once `range` is inserted: all of it when they
share no key, else its pieces before and after `range`. -/
def trim (range : κ × κ) (held : (κ × κ) × ν) : List ((κ × κ) × ν) :=
  if held.1.2 < range.1 ∨ range.2 < held.1.1 then [held]
  else (if held.1.1 < range.1 then [((held.1.1, step.subOne range.1), held.2)] else []) ++
    (if range.2 < held.1.2 then [((step.addOne range.2, held.1.2), held.2)] else [])

/-- One insert: the held ranges cut short of the new one, which takes its place
by its start. -/
def insertCut (pieces : List ((κ × κ) × ν)) (entry : (κ × κ) × ν) : List ((κ × κ) × ν) :=
  (pieces.flatMap (trim step entry.1)).orderedInsert (fun a b => a.1.1 ≤ b.1.1) entry

/-- The ranges the map holds, with their values, in order of their starts. -/
def InsertionRangeMap.iter (map : InsertionRangeMap κ ν) : List ((κ × κ) × ν) :=
  map.inserted.foldl (insertCut step) []

variable {step}

omit [DecidableLE κ] in
/-- A piece left of a held range keeps its value and covers what the held range
covers outside the inserted one. -/
theorem covers_trim {range : κ × κ} {held : (κ × κ) × ν} {key : κ} {value : ν} :
    (∃ piece ∈ trim step range held, Covers piece.1 key ∧ piece.2 = value) ↔
      Covers held.1 key ∧ held.2 = value ∧ ¬ Covers range key := by
  unfold trim Covers
  split
  · rename_i outside
    simp only [List.mem_singleton, exists_eq_left]
    constructor
    · rintro ⟨⟨low, high⟩, same⟩
      exact ⟨⟨low, high⟩, same, by grind⟩
    · exact fun ⟨covered, same, _⟩ => ⟨covered, same⟩
  · rename_i overlapping
    constructor
    · rintro ⟨piece, member, ⟨low, high⟩, same⟩
      simp only [List.mem_append] at member
      rcases member with left | right
      · split at left
        · rename_i before
          obtain rfl := List.mem_singleton.mp left
          have below := (step.le_subOne_iff before key).mp high
          exact ⟨⟨low, by grind⟩, same, by grind⟩
        · cases left
      · split at right
        · rename_i after
          obtain rfl := List.mem_singleton.mp right
          have above := (step.addOne_le_iff after key).mp low
          exact ⟨⟨by grind, high⟩, same, by grind⟩
        · cases right
    · rintro ⟨⟨low, high⟩, rfl, uncovered⟩
      by_cases before : key < range.1
      -- the key lies before the inserted range, in the left piece
      · have left : held.1.1 < range.1 := Std.lt_of_le_of_lt low before
        refine ⟨((held.1.1, step.subOne range.1), held.2), by simp [left], ⟨low, ?_⟩, rfl⟩
        exact (step.le_subOne_iff left key).mpr before
      -- otherwise it lies after it, in the right piece
      · have after : range.2 < key := by grind
        have right : range.2 < held.1.2 := Std.lt_of_lt_of_le after high
        refine ⟨((step.addOne range.2, held.1.2), held.2), by simp [right], ⟨?_, high⟩, rfl⟩
        exact (step.addOne_le_iff right key).mpr after

/-- A value is found at a key in the pieces after an insert exactly when the
inserted range covers the key with it, or does not cover the key and the value
was found there before. -/
theorem covers_insertCut {pieces : List ((κ × κ) × ν)} {entry : (κ × κ) × ν} {key : κ} {value : ν} :
    (∃ piece ∈ insertCut step pieces entry, Covers piece.1 key ∧ piece.2 = value) ↔
      if Covers entry.1 key then entry.2 = value
      else ∃ piece ∈ pieces, Covers piece.1 key ∧ piece.2 = value := by
  have trimmed : (∃ piece ∈ pieces.flatMap (trim step entry.1), Covers piece.1 key ∧ piece.2 = value) ↔
      (∃ piece ∈ pieces, Covers piece.1 key ∧ piece.2 = value) ∧ ¬ Covers entry.1 key := by
    simp only [List.mem_flatMap]
    constructor
    · rintro ⟨piece, ⟨held, member, left⟩, found⟩
      obtain ⟨covered, same, uncovered⟩ := covers_trim.mp ⟨piece, left, found⟩
      exact ⟨⟨held, member, covered, same⟩, uncovered⟩
    · rintro ⟨⟨held, member, covered, same⟩, uncovered⟩
      obtain ⟨piece, left, found⟩ := covers_trim.mpr ⟨covered, same, uncovered⟩
      exact ⟨piece, ⟨held, member, left⟩, found⟩
  have members := fun piece => (List.perm_orderedInsert (fun a b : (κ × κ) × ν => a.1.1 ≤ b.1.1) entry
    (pieces.flatMap (trim step entry.1))).mem_iff (a := piece)
  simp only [insertCut, members, List.exists_mem_cons_iff]
  split
  · rename_i covers
    constructor
    · rintro (⟨_, same⟩ | rest)
      · exact same
      · exact absurd covers (trimmed.mp rest).2
    · exact fun same => Or.inl ⟨covers, same⟩
  · rename_i uncovered
    rw [trimmed]
    exact ⟨fun found => found.elim (fun inserted => absurd inserted.1 uncovered) And.left,
      fun found => Or.inr ⟨found, uncovered⟩⟩

/-! ### The ranges held lie in increasing order -/

/-- Ranges in increasing order: each covers a key, and ends before the next starts. -/
structure Increasing (pieces : List ((κ × κ) × ν)) : Prop where
  nonempty : ∀ piece ∈ pieces, piece.1.1 ≤ piece.1.2
  before : pieces.Pairwise fun a b => a.1.2 < b.1.1

omit [DecidableLE κ] [DecidableLT κ] in
theorem increasing_of_apart {pieces : List ((κ × κ) × ν)} (nonempty : ∀ piece ∈ pieces, piece.1.1 ≤ piece.1.2)
    (sorted : pieces.Pairwise fun a b => a.1.1 ≤ b.1.1) (apart : pieces.Pairwise fun a b => Apart a.1 b.1) :
    Increasing pieces := by
  refine ⟨nonempty, (sorted.and apart).imp_of_mem fun {a b} aMember bMember ⟨starts, disjoint⟩ => ?_⟩
  -- otherwise the start of the later range lies in both
  by_contra overlap
  exact disjoint b.1.1 ⟨⟨starts, Std.not_lt.mp overlap⟩, ⟨Std.le_refl _, nonempty b bMember⟩⟩

omit [DecidableLE κ] in
/-- What is left of a held range lies within it, with its value. -/
theorem within_of_mem_trim {range : κ × κ} {held piece : (κ × κ) × ν} (member : piece ∈ trim step range held) :
    held.1.1 ≤ piece.1.1 ∧ piece.1.2 ≤ held.1.2 ∧ piece.2 = held.2 := by
  unfold trim at member
  split at member
  · obtain rfl := List.mem_singleton.mp member
    exact ⟨Std.le_refl _, Std.le_refl _, rfl⟩
  · rename_i overlapping
    simp only [List.mem_append] at member
    rcases member with left | right
    · split at left
      · rename_i before
        obtain rfl := List.mem_singleton.mp left
        have below := (step.le_subOne_iff before (step.subOne range.1)).mp (Std.le_refl _)
        exact ⟨Std.le_refl _, by grind, rfl⟩
      · cases left
    · split at right
      · rename_i after
        obtain rfl := List.mem_singleton.mp right
        have above := (step.addOne_le_iff after (step.addOne range.2)).mp (Std.le_refl _)
        exact ⟨by grind, Std.le_refl _, rfl⟩
      · cases right

omit [DecidableLE κ] in
theorem increasing_trim {range : κ × κ} {held : (κ × κ) × ν} (ordered : range.1 ≤ range.2)
    (nonempty : held.1.1 ≤ held.1.2) : Increasing (trim step range held) := by
  unfold trim
  split
  · exact ⟨by simpa using nonempty, List.pairwise_singleton _ _⟩
  · by_cases before : held.1.1 < range.1 <;> by_cases after : range.2 < held.1.2
    · -- both pieces are left, one key short of each end of the inserted range
      have below := (step.le_subOne_iff before (step.subOne range.1)).mp (Std.le_refl _)
      have above := (step.addOne_le_iff after (step.addOne range.2)).mp (Std.le_refl _)
      simp only [before, after, if_true, List.singleton_append]
      refine ⟨?_, List.pairwise_pair.mpr (by grind)⟩
      simp only [List.mem_cons, List.not_mem_nil, or_false, forall_eq_or_imp, forall_eq]
      exact ⟨(step.le_subOne_iff before held.1.1).mpr before, (step.addOne_le_iff after held.1.2).mpr after⟩
    · simp only [before, after, if_true, if_false, List.append_nil]
      exact ⟨by simpa using (step.le_subOne_iff before held.1.1).mpr before, List.pairwise_singleton _ _⟩
    · simp only [before, after, if_true, if_false, List.nil_append]
      exact ⟨by simpa using (step.addOne_le_iff after held.1.2).mpr after, List.pairwise_singleton _ _⟩
    · simp only [before, after, if_false, List.append_nil]
      exact ⟨by simp, List.Pairwise.nil⟩

omit [DecidableLE κ] in
theorem increasing_flatMap_trim {range : κ × κ} {pieces : List ((κ × κ) × ν)} (ordered : range.1 ≤ range.2)
    (increasing : Increasing pieces) : Increasing (pieces.flatMap (trim step range)) := by
  constructor
  · intro piece member
    obtain ⟨held, heldMember, left⟩ := List.mem_flatMap.mp member
    exact (increasing_trim ordered (increasing.nonempty held heldMember)).nonempty piece left
  · refine List.pairwise_flatMap.mpr ⟨fun held member => (increasing_trim ordered
      (increasing.nonempty held member)).before, increasing.before.imp fun {a b} before x xMember y yMember => ?_⟩
    have xWithin := within_of_mem_trim xMember
    have yWithin := within_of_mem_trim yMember
    exact Std.lt_of_le_of_lt xWithin.2.1 (Std.lt_of_lt_of_le before yWithin.1)

/-- An insert keeps the held ranges in increasing order. -/
theorem increasing_insertCut {pieces : List ((κ × κ) × ν)} {entry : (κ × κ) × ν} (ordered : entry.1.1 ≤ entry.1.2)
    (increasing : Increasing pieces) : Increasing (insertCut step pieces entry) := by
  have trimmed : Increasing (pieces.flatMap (trim step entry.1)) := increasing_flatMap_trim ordered increasing
  have shuffled := List.perm_orderedInsert (fun a b : (κ × κ) × ν => a.1.1 ≤ b.1.1) entry
    (pieces.flatMap (trim step entry.1))
  -- the inserted range shares no key with what is left of the others
  have apartEntry : ∀ piece ∈ pieces.flatMap (trim step entry.1), Apart entry.1 piece.1 := by
    rintro piece member key ⟨covers, covered⟩
    obtain ⟨held, heldMember, left⟩ := List.mem_flatMap.mp member
    exact (covers_trim.mp ⟨piece, left, covered, rfl⟩).2.2 covers
  have : Std.Total fun a b : (κ × κ) × ν => a.1.1 ≤ b.1.1 := ⟨fun _ _ => Std.le_total⟩
  have : IsTrans ((κ × κ) × ν) fun a b => a.1.1 ≤ b.1.1 := ⟨fun _ _ _ ab bc => Std.le_trans ab bc⟩
  apply increasing_of_apart
  · intro piece member
    rcases List.mem_cons.mp (shuffled.subset member) with rfl | rest
    · exact ordered
    · exact trimmed.nonempty piece rest
  · apply List.Pairwise.orderedInsert
    exact trimmed.before.imp_of_mem fun {a _} aMember _ before =>
      Std.le_of_lt (Std.lt_of_le_of_lt (trimmed.nonempty a aMember) before)
  · refine (shuffled.pairwise_iff fun apart => Apart.symm apart).mpr (List.pairwise_cons.mpr ⟨apartEntry, ?_⟩)
    exact trimmed.before.imp apart_of_lt

namespace InsertionRangeMap

theorem get_eq_some_iff_iter (map : InsertionRangeMap κ ν) (key : κ) (value : ν) :
    map.get key = some value ↔ ∃ piece ∈ map.iter step, Covers piece.1 key ∧ piece.2 = value := by
  obtain ⟨inserted⟩ := map
  unfold iter
  induction inserted using List.reverseRecOn with
  | nil => simp [get]
  | append_singleton earlier entry ih =>
    rw [get_append ⟨earlier⟩, List.foldl_append, List.foldl_cons, List.foldl_nil, covers_insertCut, ← ih]
    split <;> simp [*]

theorem increasing_iter {map : InsertionRangeMap κ ν} (ordered : ∀ entry ∈ map.inserted, entry.1.1 ≤ entry.1.2) :
    Increasing (map.iter step) := by
  obtain ⟨inserted⟩ := map
  unfold iter
  -- the invariant of the fold: the pieces held so far are increasing
  suffices kept : ∀ pieces : List ((κ × κ) × ν), Increasing pieces → Increasing (inserted.foldl (insertCut step) pieces)
    from kept [] ⟨by simp, List.Pairwise.nil⟩
  induction inserted with
  | nil => exact fun _ increasing => increasing
  | cons entry rest ih =>
    intro pieces increasing
    have entryOrdered := ordered entry List.mem_cons_self
    exact ih (fun other member => ordered other (List.mem_cons_of_mem _ member)) _
      (increasing_insertCut entryOrdered increasing)

theorem get_eq_of_mem_iter {map : InsertionRangeMap κ ν} {piece : (κ × κ) × ν} (member : piece ∈ map.iter step)
    {key : κ} (covers : Covers piece.1 key) : map.get key = some piece.2 :=
  (get_eq_some_iff_iter map key piece.2).mpr ⟨piece, member, covers, rfl⟩

theorem get_eq_none_of_iter {map : InsertionRangeMap κ ν} {key : κ}
    (uncovered : ∀ piece ∈ map.iter step, ¬ Covers piece.1 key) : map.get key = none := by
  cases found : map.get key with
  | none => rfl
  | some value =>
    have held : ∃ piece ∈ map.iter step, Covers piece.1 key ∧ piece.2 = value :=
      (get_eq_some_iff_iter map key value).mp found
    obtain ⟨piece, member, covers, _⟩ := held
    exact absurd covers (uncovered piece member)

end InsertionRangeMap

end Iteration

/-! ## The operations as a parameter -/

universe w

/-- The operations of `RangeInclusiveMap` a user calls: `from_iter`, `get` and `iter`. -/
structure RangeMapOps (κ : Type u) (ν : Type v) (Map : Type w) where
  fromIter : List ((κ × κ) × ν) → Option Map
  get : Map → κ → Option ν
  iter : Map → List ((κ × κ) × ν)

namespace RangeMapOps

variable [LT κ] {Map : Type w} (ops : RangeMapOps κ ν Map)

/-- The laws of a map `from_iter` builds: ranges that each cover a key build a
map; when no two of them share a key, a key is looked up in the one that
covers it; and `iter` yields ranges in increasing order that cover a key
exactly where `get` finds a value, with that value. -/
structure Lawful : Prop where
  fromIter_isSome : ∀ {entries : List ((κ × κ) × ν)}, (∀ entry ∈ entries, entry.1.1 ≤ entry.1.2) →
    (ops.fromIter entries).isSome
  get_eq_some_iff : ∀ {entries : List ((κ × κ) × ν)} {map : Map}, ops.fromIter entries = some map →
    entries.Pairwise (fun a b => Apart a.1 b.1) →
      ∀ key value, ops.get map key = some value ↔ ∃ entry ∈ entries, Covers entry.1 key ∧ entry.2 = value
  increasing_iter : ∀ {entries : List ((κ × κ) × ν)} {map : Map}, ops.fromIter entries = some map →
    Increasing (ops.iter map)
  get_eq_some_iff_iter : ∀ {entries : List ((κ × κ) × ν)} {map : Map}, ops.fromIter entries = some map →
    ∀ key value, ops.get map key = some value ↔ ∃ piece ∈ ops.iter map, Covers piece.1 key ∧ piece.2 = value

namespace Lawful

variable {ops} (lawful : ops.Lawful) {entries : List ((κ × κ) × ν)} {map : Map}
include lawful

omit [DecidableLE κ] in
theorem get_eq_some_of_mem (built : ops.fromIter entries = some map)
    (apart : entries.Pairwise fun a b => Apart a.1 b.1) {entry : (κ × κ) × ν} (member : entry ∈ entries) {key : κ}
    (covers : Covers entry.1 key) : ops.get map key = some entry.2 :=
  (lawful.get_eq_some_iff built apart key entry.2).mpr ⟨entry, member, covers, rfl⟩

omit [DecidableLE κ] in
theorem get_eq_of_mem_iter (built : ops.fromIter entries = some map) {piece : (κ × κ) × ν}
    (member : piece ∈ ops.iter map) {key : κ} (covers : Covers piece.1 key) : ops.get map key = some piece.2 :=
  (lawful.get_eq_some_iff_iter built key piece.2).mpr ⟨piece, member, covers, rfl⟩

omit [DecidableLE κ] in
theorem get_eq_none_of_iter (built : ops.fromIter entries = some map) {key : κ}
    (uncovered : ∀ piece ∈ ops.iter map, ¬ Covers piece.1 key) : ops.get map key = none := by
  cases found : ops.get map key with
  | none => rfl
  | some value =>
    obtain ⟨piece, member, covers, _⟩ := (lawful.get_eq_some_iff_iter built key value).mp found
    exact absurd covers (uncovered piece member)

end Lawful

end RangeMapOps

section Insertion

variable [LT κ] [Std.IsLinearOrder κ] [Std.LawfulOrderLT κ] [DecidableLT κ]

def InsertionRangeMap.ops (step : StepLite κ) : RangeMapOps κ ν (InsertionRangeMap κ ν) :=
  ⟨InsertionRangeMap.fromIter, InsertionRangeMap.get, InsertionRangeMap.iter step⟩

theorem InsertionRangeMap.lawful (step : StepLite κ) : (InsertionRangeMap.ops step : RangeMapOps κ ν _).Lawful where
  fromIter_isSome ordered := by
    change (fromIter _).isSome
    rw [fromIter_eq_some ordered]
    rfl
  get_eq_some_iff {entries map} built apart key value := by
    change fromIter entries = some map at built
    have inserted := inserted_of_fromIter built
    constructor
    · intro found
      simpa only [inserted] using exists_of_get_eq_some found
    · rintro ⟨entry, member, covers, rfl⟩
      exact get_eq_some_of_mem (inserted ▸ apart) (inserted ▸ member) covers
  increasing_iter built := increasing_iter (ordered_of_fromIter built)
  get_eq_some_iff_iter {_ map} _ key value := get_eq_some_iff_iter map key value

end Insertion

end Lance.Library
