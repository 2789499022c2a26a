import Lance.Encoding.Sparse
import Lance.Library.Positions
import Lance.Library.ExceptRun

/-! What a `SparsePositionSet` stands for: a finite set of positions. On sets
that pass `validate_domain`, `len` and `contains` are the size of that set and
membership in it, and `from_positions` builds a set that materializes back to
its positions. The set tests agree with inclusion and disjointness except on a
`Range` of length zero, which stands for no position but whose bounds the tests
still compare. -/

namespace Lance.Encoding

open Lance.Library

namespace SparsePositionSet

def denote : SparsePositionSet → Finset ℕ
  | empty => ∅
  | all len => Finset.range len.toNat
  | range start len => Finset.Ico start.toNat (start.toNat + len.toNat)
  | explicit positions => (positions.map UInt64.toNat).toFinset

/-- What `validate_domain` accepts, whatever its label. -/
def Valid (domainLen : UInt64) : SparsePositionSet → Prop
  | empty => True
  | all len => len = domainLen
  | range start len => start.toNat + len.toNat ≤ domainLen.toNat
  | explicit positions => positions.Pairwise (· < ·) ∧ ∀ position ∈ positions, position < domainLen

/-! ### The domain check -/

theorem increasingWindows_iff : ∀ {positions : List UInt64},
    increasingWindows positions = true ↔ positions.Pairwise (· < ·)
  | [] => by simp [increasingWindows]
  | [_] => by simp [increasingWindows]
  | previous :: current :: rest => by
    rw [increasingWindows, Bool.and_eq_true, decide_eq_true_iff, increasingWindows_iff]
    constructor
    · rintro ⟨below, sorted⟩
      refine List.pairwise_cons.mpr ⟨fun later mem => ?_, sorted⟩
      rcases List.mem_cons.mp mem with rfl | mem
      · exact below
      · exact UInt64.lt_trans below ((List.pairwise_cons.mp sorted).1 later mem)
    · intro sorted
      exact ⟨(List.pairwise_cons.mp sorted).1 current List.mem_cons_self, (List.pairwise_cons.mp sorted).2⟩

theorem le_of_getLast? {positions : List UInt64} (sorted : positions.Pairwise (· < ·)) {last : UInt64}
    (isLast : positions.getLast? = some last) : ∀ position ∈ positions, position ≤ last := by
  obtain ⟨front, rfl⟩ := List.getLast?_eq_some_iff.mp isLast
  intro position mem
  rcases List.mem_append.mp mem with early | final
  · exact UInt64.le_of_lt ((List.pairwise_append.mp sorted).2.2 position early last List.mem_cons_self)
  · rw [List.mem_singleton.mp final]
    exact UInt64.le_refl last

theorem validateDomain_eq_ok {set : SparsePositionSet} {domainLen : UInt64} {label : String} :
    set.validateDomain domainLen label = .ok () ↔ set.Valid domainLen := by
  cases set with
  | empty => simp [validateDomain, Valid]
  | all len =>
    by_cases same : len = domainLen
    · simp [validateDomain, Valid, same]
    · simp [validateDomain, Valid, same]
  | range start len =>
    have := domainLen.toNat_lt
    simp only [validateDomain, Valid]
    rcases added : checkedAdd start len with _ | stop
    · have overflow := checkedAdd_eq_none.mp added
      simp only [reduceCtorEq, false_iff]
      omega
    · obtain ⟨fits, rfl⟩ := checkedAdd_eq_some.mp added
      dsimp only
      have sum := toNat_add_of_lt fits
      split_ifs with outside
      · rw [gt_iff_lt, UInt64.lt_iff_toNat_lt, sum] at outside
        simp only [false_iff]
        omega
      · rw [gt_iff_lt, UInt64.lt_iff_toNat_lt, sum] at outside
        simp only [true_iff]
        omega
  | explicit positions =>
    simp only [validateDomain, Valid]
    by_cases sorted : positions.Pairwise (· < ·)
    · rw [if_neg (by simpa using increasingWindows_iff.mpr sorted)]
      rcases isLast : positions.getLast? with _ | last
      · rw [List.getLast?_eq_none_iff.mp isLast]
        simp
      · have greatest := le_of_getLast? sorted isLast
        dsimp only
        by_cases outside : last ≥ domainLen
        · rw [if_pos outside]
          simp only [reduceCtorEq, false_iff, not_and, not_forall]
          exact fun _ => ⟨last, List.mem_of_getLast? isLast, UInt64.not_lt.mpr outside⟩
        · rw [if_neg outside]
          simp only [true_iff]
          exact ⟨sorted, fun position mem =>
            UInt64.lt_of_le_of_lt (greatest position mem) (UInt64.not_le.mp outside)⟩
    · rw [if_pos (by simpa using mt increasingWindows_iff.mp sorted)]
      simp only [reduceCtorEq, false_iff, not_and]
      exact fun sorted' => absurd sorted' sorted

/-! ### Size and membership -/

section Valid

variable {domainLen : UInt64}

theorem increasing_toNat {positions : List UInt64} (sorted : positions.Pairwise (· < ·)) :
    (positions.map UInt64.toNat).Pairwise (· < ·) :=
  List.pairwise_map.mpr (sorted.imp UInt64.lt_iff_toNat_lt.mp)

theorem mem_map_toNat {positions : List UInt64} {position : UInt64} :
    position.toNat ∈ positions.map UInt64.toNat ↔ position ∈ positions :=
  ⟨fun mem => by
    obtain ⟨other, otherMem, same⟩ := List.mem_map.mp mem
    rwa [← UInt64.toNat_inj.mp same], List.mem_map_of_mem⟩

theorem denote_subset_range {set : SparsePositionSet} (valid : set.Valid domainLen) :
    set.denote ⊆ Finset.range domainLen.toNat := by
  intro position mem
  rw [Finset.mem_range]
  cases set with
  | empty => simp [denote] at mem
  | all len =>
    rw [denote, Finset.mem_range] at mem
    rw [← valid]
    exact mem
  | range start len =>
    rw [denote, Finset.mem_Ico] at mem
    have : start.toNat + len.toNat ≤ domainLen.toNat := valid
    omega
  | explicit positions =>
    rw [denote, List.mem_toFinset] at mem
    obtain ⟨other, otherMem, rfl⟩ := List.mem_map.mp mem
    exact UInt64.lt_iff_toNat_lt.mp (valid.2 other otherMem)

theorem len_eq_card {set : SparsePositionSet} (valid : set.Valid domainLen) : set.len.toNat = set.denote.card := by
  cases set with
  | empty => rfl
  | all count => rw [SparsePositionSet.len, denote, Finset.card_range]
  | range start count => rw [SparsePositionSet.len, denote, Nat.card_Ico, Nat.add_sub_cancel_left]
  | explicit positions =>
    -- distinct positions below the domain are fewer than `2 ^ 64`
    have distinct := (increasing_toNat valid.1).nodup
    have fewer := length_le_of_forall_lt distinct fun position mem => by
      obtain ⟨other, otherMem, rfl⟩ := List.mem_map.mp mem
      exact UInt64.lt_iff_toNat_lt.mp (valid.2 other otherMem)
    have := domainLen.toNat_lt
    rw [List.length_map] at fewer
    rw [SparsePositionSet.len, denote, List.toFinset_card_of_nodup distinct, List.length_map,
      UInt64.toNat_ofNat_of_lt' (show positions.length < 2 ^ 64 by omega)]

theorem contains_iff {set : SparsePositionSet} (valid : set.Valid domainLen) (position : UInt64) :
    set.contains position = true ↔ position.toNat ∈ set.denote := by
  cases set with
  | empty => simp [contains, denote]
  | all len => simp [contains, denote, UInt64.lt_iff_toNat_lt]
  | range start len =>
    have fits : start.toNat + len.toNat ≤ domainLen.toNat := valid
    have := domainLen.toNat_lt
    rw [contains, denote, Finset.mem_Ico, Bool.and_eq_true, decide_eq_true_iff, decide_eq_true_iff,
      ge_iff_le, UInt64.le_iff_toNat_le, UInt64.lt_iff_toNat_lt, toNat_saturatingAdd (by omega)]
  | explicit positions =>
    rw [contains, denote, List.mem_toFinset, mem_map_toNat, binarySearch_of_sorted valid.1]
    split_ifs with mem
    · exact iff_of_true rfl mem
    · exact iff_of_false Bool.false_ne_true mem

theorem card_eq_iff_range_subset {set : SparsePositionSet} (valid : set.Valid domainLen) :
    set.denote.card = domainLen.toNat ↔ Finset.range domainLen.toNat ⊆ set.denote := by
  have inside := denote_subset_range valid
  constructor
  · intro full
    rw [Finset.eq_of_subset_of_card_le inside (by rw [Finset.card_range, full])]
  · intro covers
    rw [Finset.Subset.antisymm inside covers, Finset.card_range]

theorem pointBelow_eq {positions : List UInt64} (sorted : positions.Pairwise (· < ·)) (bound : UInt64) :
    pointBelow positions bound = (positions.map UInt64.toNat).countP (· < bound.toNat) := by
  rw [pointBelow, partitionPoint_lt_eq_countP sorted, List.countP_map]
  congr 1

/-! ### The set tests -/

def EmptyRange (set : SparsePositionSet) : Prop := ∃ start, set = .range start 0

theorem ok_bind_unit {β : Type} (f : Unit → Except String β) : (Except.ok () >>= f) = f () := rfl

theorem count_pos_of_not_emptyRange {start count : UInt64} (notEmpty : ¬ EmptyRange (.range start count)) :
    0 < count.toNat := by
  by_contra zero
  have none : count.toNat = (0 : UInt64).toNat := by
    rw [UInt64.toNat_zero]
    omega
  exact notEmpty ⟨start, by rw [UInt64.toNat_inj.mp none]⟩

theorem pure_eq_ok_decide {answer : Bool} {holds : Prop} [Decidable holds] (same : answer = true ↔ holds) :
    (pure answer : Except String Bool) = .ok (decide holds) := by
  rw [Bool.eq_iff_iff.mpr (same.trans decide_eq_true_iff.symm)]
  rfl

/-- Unless it is a `Range` of length zero, a valid set is a subset of another
exactly when `is_subset_of` says so. -/
theorem isSubsetOf_eq {self other : SparsePositionSet} (validSelf : self.Valid domainLen)
    (validOther : other.Valid domainLen) (notEmpty : ¬ self.EmptyRange) :
    self.isSubsetOf other domainLen = .ok (decide (self.denote ⊆ other.denote)) := by
  unfold isSubsetOf
  rw [(@validateDomain_eq_ok self domainLen "subset").mpr validSelf, ok_bind_unit,
    (@validateDomain_eq_ok other domainLen "superset").mpr validOther, ok_bind_unit]
  cases self with
  | empty => exact pure_eq_ok_decide (iff_of_true rfl (Finset.empty_subset _))
  | all count =>
    have same : count = domainLen := validSelf
    subst same
    apply pure_eq_ok_decide
    rw [denote, ← card_eq_iff_range_subset validOther, ← len_eq_card validOther]
    exact beq_iff_eq.trans UInt64.toNat_inj.symm
  | range start count =>
    have fits : start.toNat + count.toNat ≤ domainLen.toNat := validSelf
    have := domainLen.toNat_lt
    have positive := count_pos_of_not_emptyRange notEmpty
    have stop : (start + count).toNat = start.toNat + count.toNat := toNat_add_of_lt (by omega)
    have first : start.toNat ∈ Finset.Ico start.toNat (start.toNat + count.toNat) := by
      rw [Finset.mem_Ico]
      omega
    dsimp only
    rw [checkedAdd_eq_some.mpr ⟨by omega, rfl⟩]
    dsimp only
    cases other with
    | empty => exact pure_eq_ok_decide (iff_of_false Bool.false_ne_true fun covered => Finset.notMem_empty _ (covered first))
    | all otherCount =>
      have same : otherCount = domainLen := validOther
      refine pure_eq_ok_decide (iff_of_true rfl fun position mem => ?_)
      rw [denote, Finset.mem_Ico] at mem
      rw [denote, Finset.mem_range, same]
      omega
    | range otherStart otherCount =>
      have otherFits : otherStart.toNat + otherCount.toNat ≤ domainLen.toNat := validOther
      apply pure_eq_ok_decide
      rw [denote, denote, Finset.Ico_subset_Ico_iff (by omega), Bool.and_eq_true, decide_eq_true_iff,
        decide_eq_true_iff, ge_iff_le, UInt64.le_iff_toNat_le, UInt64.le_iff_toNat_le, stop,
        toNat_saturatingAdd (by omega)]
    | explicit positions =>
      have distinct := (increasing_toNat validOther.1).nodup
      apply pure_eq_ok_decide
      rw [denote, denote, pointBelow_eq validOther.1, pointBelow_eq validOther.1, stop, beq_iff_eq,
        ← countP_lt_sub_countP_lt_eq_iff distinct (Nat.le_add_right _ _), Nat.add_sub_cancel_left]
  | explicit positions =>
    apply pure_eq_ok_decide
    rw [List.all_eq_true, denote]
    simp only [Finset.subset_iff, List.mem_toFinset, List.mem_map, forall_exists_index, and_imp,
      forall_apply_eq_imp_iff₂, contains_iff validOther]

/-- Unless either set is a `Range` of length zero, the test of `is_disjoint`
on the smaller set is disjointness, whichever set is the smaller. -/
theorem disjointBySmaller_eq {smaller larger : SparsePositionSet} (validSmaller : smaller.Valid domainLen)
    (validLarger : larger.Valid domainLen) (smallerNotEmpty : ¬ smaller.EmptyRange)
    (largerNotEmpty : ¬ larger.EmptyRange) :
    disjointBySmaller smaller larger = decide (Disjoint smaller.denote larger.denote) := by
  rw [Bool.eq_iff_iff, decide_eq_true_iff]
  cases smaller with
  | empty => exact iff_of_true rfl (Finset.disjoint_empty_left _)
  | all count =>
    have same : count = domainLen := validSmaller
    subst same
    -- what a valid set stands for lies in the domain, so it misses all of it only when empty
    rw [disjointBySmaller, isEmpty, beq_iff_eq, denote, ← UInt64.toNat_inj, len_eq_card validLarger,
      UInt64.toNat_zero, Finset.card_eq_zero, Finset.disjoint_iff_inter_eq_empty,
      Finset.inter_eq_right.mpr (denote_subset_range validLarger)]
  | range start count =>
    have fits : start.toNat + count.toNat ≤ domainLen.toNat := validSmaller
    have := domainLen.toNat_lt
    have positive := count_pos_of_not_emptyRange smallerNotEmpty
    have stop := @toNat_saturatingAdd start count (by omega)
    have first : start.toNat ∈ Finset.Ico start.toNat (start.toNat + count.toNat) := by
      rw [Finset.mem_Ico]
      omega
    cases larger with
    | empty => exact iff_of_true rfl (Finset.disjoint_empty_right _)
    | all otherCount =>
      have same : otherCount = domainLen := validLarger
      refine iff_of_false Bool.false_ne_true fun apart => Finset.disjoint_left.mp apart first ?_
      rw [denote, Finset.mem_range, same]
      omega
    | range otherStart otherCount =>
      have otherFits : otherStart.toNat + otherCount.toNat ≤ domainLen.toNat := validLarger
      have otherPositive := count_pos_of_not_emptyRange largerNotEmpty
      rw [disjointBySmaller, Bool.or_eq_true, decide_eq_true_iff, decide_eq_true_iff, UInt64.le_iff_toNat_le,
        UInt64.le_iff_toNat_le, stop, toNat_saturatingAdd (by omega), denote, denote, Finset.disjoint_left]
      simp only [Finset.mem_Ico]
      constructor
      · intro apart position inFirst inSecond
        omega
      · -- overlapping ranges share the later of their starts
        intro apart
        by_contra overlap
        rcases Nat.le_total start.toNat otherStart.toNat with later | later
        · exact apart (show start.toNat ≤ otherStart.toNat ∧ otherStart.toNat < start.toNat + count.toNat by omega)
            ⟨Nat.le_refl _, by omega⟩
        · exact apart ⟨Nat.le_refl _, by omega⟩
            (show otherStart.toNat ≤ start.toNat ∧ start.toNat < otherStart.toNat + otherCount.toNat by omega)
    | explicit positions =>
      -- the first position from `start` on, read through the numbers of the positions
      have first : positions[pointBelow positions start]?.all (· ≥ saturatingAdd start count) =
          (positions.map UInt64.toNat)[pointBelow positions start]?.all (· ≥ start.toNat + count.toNat) := by
        rw [List.getElem?_map]
        cases positions[pointBelow positions start]? with
        | none => rfl
        | some position => simp only [Option.map_some, Option.all_some, ge_iff_le, UInt64.le_iff_toNat_le, stop]
      rw [disjointBySmaller, first, pointBelow_eq validLarger.1,
        all_getElem?_countP_lt_iff (increasing_toNat validLarger.1), denote, denote, Finset.disjoint_right]
      simp only [List.mem_toFinset, Finset.mem_Ico]
  | explicit positions =>
    rw [disjointBySmaller, List.all_eq_true, denote, Finset.disjoint_left]
    simp only [Bool.not_eq_true', List.mem_toFinset, List.mem_map, forall_exists_index, and_imp,
      forall_apply_eq_imp_iff₂, ← contains_iff validLarger, Bool.not_eq_true]

/-- Unless either set is a `Range` of length zero, two valid sets are disjoint
exactly when `is_disjoint` says so. -/
theorem isDisjoint_eq {self other : SparsePositionSet} (validSelf : self.Valid domainLen)
    (validOther : other.Valid domainLen) (selfNotEmpty : ¬ self.EmptyRange) (otherNotEmpty : ¬ other.EmptyRange) :
    self.isDisjoint other domainLen = .ok (decide (Disjoint self.denote other.denote)) := by
  unfold isDisjoint
  rw [(@validateDomain_eq_ok self domainLen "first disjoint set").mpr validSelf, ok_bind_unit,
    (@validateDomain_eq_ok other domainLen "second disjoint set").mpr validOther, ok_bind_unit]
  split_ifs
  · dsimp only
    rw [disjointBySmaller_eq validSelf validOther selfNotEmpty otherNotEmpty]
    rfl
  · dsimp only
    rw [disjointBySmaller_eq validOther validSelf otherNotEmpty selfNotEmpty]
    exact pure_eq_ok_decide (decide_eq_true_iff.trans disjoint_comm)

end Valid

/-! ### Building a set from its positions -/

theorem materializeRange_eq {positions : List UInt64} {start count : UInt64}
    (consecutive : positions.map UInt64.toNat = List.range' start.toNat count.toNat)
    (fits : start.toNat + count.toNat < 2 ^ 64) : materializeRange start count = .ok positions := by
  rw [materializeRange, checkedAdd_eq_some.mpr ⟨fits, rfl⟩]
  dsimp only
  rw [toNat_add_of_lt fits, Nat.add_sub_cancel_left, ← consecutive, List.map_map]
  simp only [Function.comp_def, UInt64.ofNat_toNat, List.map_id']

/-- From strictly increasing positions below the domain, `from_positions`
builds a set that materializes back to them. -/
theorem fromPositions_materialize {positions : List UInt64} {domainLen : UInt64}
    (sorted : positions.Pairwise (· < ·)) (below : ∀ position ∈ positions, position < domainLen) (label : String) :
    ∃ set, fromPositions positions domainLen label = .ok set ∧ set.materialize = .ok positions := by
  cases positions with
  | nil => exact ⟨.empty, rfl, rfl⟩
  | cons first rest =>
    have numbers := increasing_toNat sorted
    have := domainLen.toNat_lt
    have fewer : (first :: rest).length ≤ domainLen.toNat := by
      have := @length_le_of_forall_lt _ numbers.nodup domainLen.toNat fun position mem => by
        obtain ⟨other, otherMem, rfl⟩ := List.mem_map.mp mem
        exact UInt64.lt_iff_toNat_lt.mp (below other otherMem)
      rwa [List.length_map] at this
    obtain ⟨last, isLast⟩ : ∃ last, (first :: rest).getLast? = some last :=
      ⟨_, List.getLast?_eq_some_getLast (List.cons_ne_nil first rest)⟩
    have lastBelow := UInt64.lt_iff_toNat_lt.mp (below last (List.mem_of_getLast? isLast))
    have greatest := le_of_getLast? sorted isLast
    have least : ∀ position ∈ first :: rest, first ≤ position := fun position mem => by
      rcases List.mem_cons.mp mem with rfl | later
      · exact UInt64.le_refl _
      · exact UInt64.le_of_lt ((List.pairwise_cons.mp sorted).1 position later)
    -- the positions lie in `[first, last]`, as many as there are
    have within : ∀ position ∈ (first :: rest).map UInt64.toNat, first.toNat ≤ position ∧ position ≤ last.toNat := by
      intro position mem
      obtain ⟨other, otherMem, rfl⟩ := List.mem_map.mp mem
      exact ⟨UInt64.le_iff_toNat_le.mp (least other otherMem), UInt64.le_iff_toNat_le.mp (greatest other otherMem)⟩
    have counted : (UInt64.ofNat (first :: rest).length).toNat = (first :: rest).length :=
      UInt64.toNat_ofNat_of_lt' (show (first :: rest).length < 2 ^ 64 by omega)
    have passes : (first :: rest).find? (· ≥ domainLen) = none :=
      List.find?_eq_none.mpr fun position mem => by simpa using below position mem
    unfold fromPositions
    rw [if_neg (by simp), if_neg (by simp [increasingWindows_iff.mpr sorted]), passes]
    dsimp only
    rw [if_pos (show (first :: rest).length < 2 ^ 64 by omega), isLast]
    simp only [List.head?_cons, pure_bind]
    split_ifs with whole consecutive
    · -- every slot of the domain: the positions are `0..domain_len`
      obtain ⟨⟨⟨atZero, full⟩, _⟩, _⟩ := by simpa only [Bool.and_eq_true, beq_iff_eq] using whole
      rw [← UInt64.toNat_inj, counted] at full
      refine ⟨_, rfl, materializeRange_eq ?_ (by rw [UInt64.toNat_zero]; omega)⟩
      rw [UInt64.toNat_zero, ← full, ← List.length_map UInt64.toNat]
      refine eq_range'_of_increasing numbers fun position mem => ⟨Nat.zero_le _, ?_⟩
      rw [List.length_map, full, Nat.zero_add]
      obtain ⟨other, otherMem, rfl⟩ := List.mem_map.mp mem
      exact UInt64.lt_iff_toNat_lt.mp (below other otherMem)
    · -- consecutive positions: `first..last + 1`
      have ordered := UInt64.le_iff_toNat_le.mp (greatest first List.mem_cons_self)
      have one : (1 : UInt64).toNat = 1 := rfl
      have difference := UInt64.toNat_sub_of_le _ _ (UInt64.le_iff_toNat_le.mpr ordered)
      have span : (last - first + 1).toNat = last.toNat - first.toNat + 1 := by
        rw [toNat_add_of_lt (by rw [difference, one]; omega), difference, one]
      have length : last.toNat - first.toNat + 1 = (first :: rest).length := by
        rw [← span, ← counted, UInt64.toNat_inj]
        simpa only [beq_iff_eq] using consecutive
      refine ⟨_, rfl, materializeRange_eq ?_ (by omega)⟩
      rw [counted, ← List.length_map UInt64.toNat]
      refine eq_range'_of_increasing numbers fun position mem => ?_
      have := within position mem
      rw [List.length_map]
      omega
    · exact ⟨_, rfl, rfl⟩

/-! ### The sets the code builds -/

theorem fromPositions_not_emptyRange {positions : List UInt64} {domainLen : UInt64} {label : String}
    {set : SparsePositionSet} (built : fromPositions positions domainLen label = .ok set) : ¬ set.EmptyRange := by
  rintro ⟨start, rfl⟩
  cases positions with
  | nil => cases built
  | cons first rest =>
    unfold fromPositions at built
    simp only [List.isEmpty_cons, Bool.false_eq_true, if_false] at built
    split at built
    · cases built
    split at built
    · cases built
    split at built
    · rename_i fits
      simp only [List.head?_cons, pure_bind] at built
      split at built
      · split_ifs at built with whole consecutive
        · cases built
        · obtain ⟨rfl, count⟩ := range.inj (Except.ok.inj built)
          have counted : (UInt64.ofNat (first :: rest).length).toNat = (first :: rest).length :=
            UInt64.toNat_ofNat_of_lt' fits
          rw [count, UInt64.toNat_zero] at counted
          simp at counted
        · cases built
      · cases built
    · cases built

theorem decodeExplicitPositions_eq_ok {deltas : Except String (List UInt64)} {numSlots : UInt64} {label : String}
    {set : SparsePositionSet} (decoded : decodeExplicitPositions deltas numSlots label = .ok set) :
    ∃ positions, fromPositions positions numSlots label = .ok set := by
  obtain ⟨_, -, listed⟩ := Library.bind_eq_ok.mp decoded
  obtain ⟨positions, -, built⟩ := Library.bind_eq_ok.mp listed
  exact ⟨positions, built⟩

/-- The sets the code builds: `empty()`, `all`, `range` and `from_positions`,
through which `decode_position_set` and the writer make every set. -/
inductive Built : SparsePositionSet → Prop
  | empty : Built .empty
  | all (len : UInt64) : Built (ofAll len)
  | range (start len : UInt64) : Built (ofRange start len)
  | fromPositions {positions : List UInt64} {domainLen : UInt64} {label : String} {set : SparsePositionSet} :
      fromPositions positions domainLen label = .ok set → Built set

/-- No code path builds a `Range` of length zero: `range` and `all` turn an
empty run into `Empty`, and `from_positions` counts at least one position. -/
theorem Built.not_emptyRange {set : SparsePositionSet} (built : set.Built) : ¬ set.EmptyRange := by
  cases built with
  | empty => rintro ⟨_, same⟩; cases same
  | all len =>
    rintro ⟨_, same⟩
    unfold ofAll at same
    split at same <;> cases same
  | range start len =>
    rintro ⟨_, same⟩
    unfold ofRange at same
    split at same
    · cases same
    · rename_i nonzero
      exact nonzero (by rw [(range.inj same).2]; rfl)
  | fromPositions built => exact fromPositions_not_emptyRange built

end SparsePositionSet

namespace SparsePositionSetDecoder

open SparsePositionSet

theorem decodePositionSet_built {decoder : SparsePositionSetDecoder}
    {decodeValues : UInt64 → Except String (List UInt64)} {label : String} {set : SparsePositionSet}
    (decoded : decoder.decodePositionSet decodeValues label = .ok set) : set.Built := by
  cases decoder with
  | empty => cases decoded; exact .empty
  | all len => cases decoded; exact .all len
  | range start len => cases decoded; exact .range start len
  | explicit count domainLen =>
    obtain ⟨positions, built⟩ := decodeExplicitPositions_eq_ok decoded
    exact .fromPositions built

end SparsePositionSetDecoder

namespace SparsePositionSet

/-- On the sets the code builds that pass `validate_domain`, the set tests are
inclusion and disjointness of what the sets stand for, `contains` is
membership and `len` the number of positions; and strictly increasing
positions below the domain come back from `from_positions` and `materialize`. -/
theorem setTests_eq_denote {domainLen : UInt64} {a b : SparsePositionSet} {labelA labelB : String}
    (builtA : a.Built) (builtB : b.Built) (validA : a.validateDomain domainLen labelA = .ok ())
    (validB : b.validateDomain domainLen labelB = .ok ()) :
    a.isSubsetOf b domainLen = .ok (decide (a.denote ⊆ b.denote)) ∧
      a.isDisjoint b domainLen = .ok (decide (Disjoint a.denote b.denote)) ∧
      (∀ position, a.contains position = true ↔ position.toNat ∈ a.denote) ∧
      a.len.toNat = a.denote.card ∧
      ∀ positions : List UInt64, positions.Pairwise (· < ·) → (∀ position ∈ positions, position < domainLen) →
        ∀ label, ∃ set, fromPositions positions domainLen label = .ok set ∧ set.materialize = .ok positions := by
  have a_valid := validateDomain_eq_ok.mp validA
  have b_valid := validateDomain_eq_ok.mp validB
  exact ⟨isSubsetOf_eq a_valid b_valid builtA.not_emptyRange,
    isDisjoint_eq a_valid b_valid builtA.not_emptyRange builtB.not_emptyRange,
    contains_iff a_valid, len_eq_card a_valid, fun _ sorted below label => fromPositions_materialize sorted below label⟩

theorem setTests_eq_denote_at_run_and_positions :
    (ofRange 2 3).Built ∧ (explicit [1, 2, 3, 4, 7]).Built ∧
      (ofRange 2 3).validateDomain 10 "subset" = .ok () ∧ (explicit [1, 2, 3, 4, 7]).validateDomain 10 "superset" = .ok () ∧
      ((ofRange 2 3).isSubsetOf (explicit [1, 2, 3, 4, 7]) 10 =
          .ok (decide ((ofRange 2 3).denote ⊆ (explicit [1, 2, 3, 4, 7]).denote)) ∧
        (ofRange 2 3).isDisjoint (explicit [1, 2, 3, 4, 7]) 10 =
          .ok (decide (Disjoint (ofRange 2 3).denote (explicit [1, 2, 3, 4, 7]).denote)) ∧
        (∀ position, (ofRange 2 3).contains position = true ↔ position.toNat ∈ (ofRange 2 3).denote) ∧
        (ofRange 2 3).len.toNat = (ofRange 2 3).denote.card ∧
        ∀ positions : List UInt64, positions.Pairwise (· < ·) → (∀ position ∈ positions, position < 10) →
          ∀ label, ∃ set, fromPositions positions 10 label = .ok set ∧ set.materialize = .ok positions) := by
  have decodedA : (SparsePositionSetDecoder.range 2 3).decodePositionSet (fun _ => .ok []) "subset" =
      .ok (ofRange 2 3) := rfl
  have decodedB : (SparsePositionSetDecoder.explicit 5 10).decodePositionSet (fun _ => .ok [1, 1, 1, 1, 3])
      "superset" = .ok (explicit [1, 2, 3, 4, 7]) := rfl
  have builtA := SparsePositionSetDecoder.decodePositionSet_built decodedA
  have builtB := SparsePositionSetDecoder.decodePositionSet_built decodedB
  have validA : (ofRange 2 3).validateDomain 10 "subset" = .ok () := rfl
  have validB : (explicit [1, 2, 3, 4, 7]).validateDomain 10 "superset" = .ok () := rfl
  exact ⟨builtA, builtB, validA, validB, setTests_eq_denote builtA builtB validA validB⟩

end SparsePositionSet

end Lance.Encoding
