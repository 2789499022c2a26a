import Mathlib.Data.Set.Lattice
import Lance.Core.RowAddress
import Lance.Library.Multimap
import Lance.Select.RowAddrMask

/-! What a `RowAddrTreeMap` is for: a set of `u64` row addresses, every row of
a fully selected fragment and the bitmap's rows of a partial one. Each
operation of `mask.rs` is the set operation of its name: the loops over one
map's entries act key by key (`KeyLocal`), so each reduces to what it does to
one fragment's entry, and there to a Boolean combination of the two
selections. -/

namespace Lance.Select

open Lance.Library Lance.Core

def selectsRow : Option RowAddrSelection → UInt32 → Bool
  | none, _ => false
  | some selection, row => selection.contains row

@[simp] theorem selectsRow_none (row : UInt32) : selectsRow none row = false := rfl

@[simp] theorem selectsRow_some (selection : RowAddrSelection) (row : UInt32) :
    selectsRow (some selection) row = selection.contains row := rfl

@[simp] theorem contains_full (row : UInt32) : RowAddrSelection.full.contains row = true := rfl

@[simp] theorem contains_partialRows (bitmap : RoaringBitmap) (row : UInt32) :
    (RowAddrSelection.partialRows bitmap).contains row = decide (row ∈ bitmap) := rfl

theorem selectsRow_filter_nonEmpty (entry : Option RowAddrSelection) (row : UInt32) :
    selectsRow (entry.filter RowAddrSelection.nonEmpty) row = selectsRow entry row := by
  rcases entry with _ | _ | bitmap
  · rfl
  · rfl
  · by_cases empty : bitmap = ∅
    · subst empty
      simp [Option.filter_some, RowAddrSelection.nonEmpty]
    · simp [Option.filter_some, RowAddrSelection.nonEmpty, empty]

namespace RowAddrTreeMap

theorem perm_iter (map : RowAddrTreeMap) : map.iter.Perm map.inner.entries :=
  List.mergeSort_perm _ _

theorem nodupKeys_iter (map : RowAddrTreeMap) : map.iter.NodupKeys :=
  (List.perm_nodupKeys (perm_iter map)).mpr map.inner.nodupKeys

@[simp] theorem dlookup_iter (map : RowAddrTreeMap) (fragment : UInt32) :
    map.iter.dlookup fragment = map.inner.lookup fragment :=
  List.perm_dlookup fragment (nodupKeys_iter map) (perm_iter map)

theorem contains_eq (map : RowAddrTreeMap) (row : UInt64) :
    map.contains row = selectsRow (map.inner.lookup (RowAddress.mk row).fragmentId) (RowAddress.mk row).rowOffset := by
  simp only [contains, RowAddress.fragmentId, RowAddress.rowOffset]
  rcases map.inner.lookup (row >>> 32).toUInt32 with _ | _ | bitmap <;> rfl

theorem contains_of_selectsRow {map a b : RowAddrTreeMap} (combine : Bool → Bool → Bool)
    (pointwise : ∀ fragment row, selectsRow (map.inner.lookup fragment) row =
      combine (selectsRow (a.inner.lookup fragment) row) (selectsRow (b.inner.lookup fragment) row))
    (addr : UInt64) :
    map.contains addr = combine (a.contains addr) (b.contains addr) := by
  rw [contains_eq, contains_eq, contains_eq, pointwise]

/-! ### The set a map denotes -/

/-- The row addresses a map holds: `(k << 32) | v` for every offset `v` its
entry for fragment `k` selects. -/
def addrs (map : RowAddrTreeMap) : Set UInt64 :=
  {addr | ∃ fragment row, selectsRow (map.inner.lookup fragment) row = true ∧
    addr = (RowAddress.newFromParts fragment row).raw}

theorem mem_addrs {map : RowAddrTreeMap} {addr : UInt64} : addr ∈ map.addrs ↔ map.contains addr = true := by
  constructor
  · rintro ⟨fragment, row, selects, rfl⟩
    rw [contains_eq, RowAddress.mk_raw, RowAddress.fragmentId_newFromParts, RowAddress.rowOffset_newFromParts]
    exact selects
  · intro member
    rw [contains_eq] at member
    exact ⟨_, _, member, by rw [RowAddress.newFromParts_fragmentId_rowOffset]⟩

/-! ### `|=` -/

def orSelection (rhsSet : RowAddrSelection) : Option RowAddrSelection → Option RowAddrSelection
  | some .full => some .full
  | some (.partialRows lhsBitmap) =>
    some (match rhsSet with
      | .full => .full
      | .partialRows rhsBitmap => .partialRows (lhsBitmap ∪ rhsBitmap))
  | none => some rhsSet

theorem orFragment_keyLocal : KeyLocal orFragment orSelection := by
  intro inner fragment rhsSet probe
  unfold orFragment
  by_cases same : probe = fragment
  · subst same
    rw [if_pos rfl]
    rcases found : inner.lookup probe with _ | _ | lhsBitmap
    · simp [orSelection]
    · simp [orSelection, found]
    · cases rhsSet <;> simp [orSelection]
  · rw [if_neg same]
    rcases inner.lookup fragment with _ | _ | lhsBitmap
    · simp [AList.lookup_insert_ne same]
    · rfl
    · cases rhsSet <;> simp [AList.lookup_insert_ne same]

theorem selectsRow_orSelection (rhsSet : RowAddrSelection) (entry : Option RowAddrSelection) (row : UInt32) :
    selectsRow (orSelection rhsSet entry) row = (selectsRow entry row || rhsSet.contains row) := by
  rcases entry with _ | _ | lhsBitmap
  · simp [orSelection]
  · simp [orSelection]
  · cases rhsSet <;> simp [orSelection]

theorem lookup_bitorAssign (self rhs : RowAddrTreeMap) (fragment : UInt32) :
    (self.bitorAssign rhs).inner.lookup fragment =
      (rhs.inner.lookup fragment).elim (self.inner.lookup fragment) fun rhsSet =>
        orSelection rhsSet (self.inner.lookup fragment) := by
  rw [bitorAssign, orFragment_keyLocal.lookup_foldl rhs.iter (nodupKeys_iter rhs), dlookup_iter]

theorem contains_bitorAssign (self rhs : RowAddrTreeMap) (addr : UInt64) :
    (self.bitorAssign rhs).contains addr = (self.contains addr || rhs.contains addr) := by
  refine contains_of_selectsRow (· || ·) (fun fragment row => ?_) addr
  rw [lookup_bitorAssign]
  rcases rhs.inner.lookup fragment with _ | rhsSet
  · simp
  · exact selectsRow_orSelection rhsSet _ row

theorem contains_or (self rhs : RowAddrTreeMap) (addr : UInt64) :
    (self ||| rhs).contains addr = (self.contains addr || rhs.contains addr) :=
  contains_bitorAssign self rhs addr

/-! ### `&=` -/

theorem lookup_bitandAssign (self rhs : RowAddrTreeMap) (fragment : UInt32) :
    (self.bitandAssign rhs).inner.lookup fragment =
      (((self.inner.lookup fragment).filter fun _ => decide (fragment ∈ rhs.inner)).map
        (andFragment rhs.inner fragment)).filter RowAddrSelection.nonEmpty := by
  simp only [bitandAssign, lookup_retain, lookup_mapValues]

theorem selectsRow_andFragment (rhs : Inner) (fragment : UInt32) (lhsSet : RowAddrSelection)
    (present : fragment ∈ rhs) (row : UInt32) :
    (andFragment rhs fragment lhsSet).contains row = (lhsSet.contains row && selectsRow (rhs.lookup fragment) row) := by
  obtain ⟨rhsSet, found⟩ := Option.isSome_iff_exists.mp (AList.lookup_isSome.mpr present)
  unfold andFragment
  rw [found]
  cases lhsSet <;> cases rhsSet <;> simp

theorem contains_bitandAssign (self rhs : RowAddrTreeMap) (addr : UInt64) :
    (self.bitandAssign rhs).contains addr = (self.contains addr && rhs.contains addr) := by
  refine contains_of_selectsRow (· && ·) (fun fragment row => ?_) addr
  rw [lookup_bitandAssign, selectsRow_filter_nonEmpty]
  by_cases present : fragment ∈ rhs.inner
  · -- a fragment both sides hold: the in-place pass intersects the two entries
    rcases self.inner.lookup fragment with _ | lhsSet
    · simp
    · simp only [Option.filter_some, present, decide_true, ↓reduceIte, Option.map_some, selectsRow_some]
      exact selectsRow_andFragment rhs.inner fragment lhsSet present row
  · -- a fragment the right-hand side lacks: the first `retain` drops it
    rw [AList.lookup_eq_none.mpr present]
    rcases self.inner.lookup fragment with _ | lhsSet <;> simp [present]

theorem contains_and (self rhs : RowAddrTreeMap) (addr : UInt64) :
    (self &&& rhs).contains addr = (self.contains addr && rhs.contains addr) :=
  contains_bitandAssign self rhs addr

/-! ### `-=` -/

def subSelection (rhsSet : RowAddrSelection) : Option RowAddrSelection → Option RowAddrSelection
  | none => none
  | some .full =>
    match rhsSet with
    | .full => none
    | .partialRows rhsBitmap => some (.partialRows (Finset.univ \ rhsBitmap))
  | some (.partialRows lhsBitmap) =>
    match rhsSet with
    | .full => none
    | .partialRows rhsBitmap =>
      if lhsBitmap \ rhsBitmap = ∅ then none else some (.partialRows (lhsBitmap \ rhsBitmap))

theorem subFragment_keyLocal : KeyLocal subFragment subSelection := by
  intro inner fragment rhsSet probe
  unfold subFragment
  by_cases same : probe = fragment
  · subst same
    rw [if_pos rfl]
    rcases found : inner.lookup probe with _ | _ | lhsBitmap
    · simp [subSelection, found]
    · cases rhsSet <;> simp [subSelection]
    · cases rhsSet with
      | full => simp [subSelection]
      | partialRows rhsBitmap =>
        by_cases empty : lhsBitmap \ rhsBitmap = ∅ <;> simp [subSelection, empty]
  · rw [if_neg same]
    rcases inner.lookup fragment with _ | _ | lhsBitmap
    · rfl
    · cases rhsSet <;> simp [AList.lookup_insert_ne same, AList.lookup_erase_ne same]
    · cases rhsSet with
      | full => simp [AList.lookup_erase_ne same]
      | partialRows rhsBitmap =>
        by_cases empty : lhsBitmap \ rhsBitmap = ∅ <;>
          simp [empty, AList.lookup_insert_ne same, AList.lookup_erase_ne same]

theorem selectsRow_subSelection (rhsSet : RowAddrSelection) (entry : Option RowAddrSelection) (row : UInt32) :
    selectsRow (subSelection rhsSet entry) row = (selectsRow entry row && !rhsSet.contains row) := by
  rcases entry with _ | _ | lhsBitmap
  · rfl
  · cases rhsSet <;> simp [subSelection]
  · cases rhsSet with
    | full => simp [subSelection]
    | partialRows rhsBitmap =>
      by_cases empty : lhsBitmap \ rhsBitmap = ∅
      · -- an emptied bitmap goes, and it held none of the rows
        have gone : ¬(row ∈ lhsBitmap ∧ row ∉ rhsBitmap) := by
          rw [← Finset.mem_sdiff, empty]
          exact Finset.notMem_empty row
        simp [subSelection, empty]
        tauto
      · simp [subSelection, empty]

theorem lookup_subAssign (self rhs : RowAddrTreeMap) (fragment : UInt32) :
    (self.subAssign rhs).inner.lookup fragment =
      (rhs.inner.lookup fragment).elim (self.inner.lookup fragment) fun rhsSet =>
        subSelection rhsSet (self.inner.lookup fragment) := by
  rw [subAssign, subFragment_keyLocal.lookup_foldl rhs.iter (nodupKeys_iter rhs), dlookup_iter]

theorem contains_subAssign (self rhs : RowAddrTreeMap) (addr : UInt64) :
    (self.subAssign rhs).contains addr = (self.contains addr && !rhs.contains addr) := by
  refine contains_of_selectsRow (fun kept dropped => kept && !dropped) (fun fragment row => ?_) addr
  rw [lookup_subAssign]
  rcases rhs.inner.lookup fragment with _ | rhsSet
  · simp
  · exact selectsRow_subSelection rhsSet _ row

theorem contains_sub (self rhs : RowAddrTreeMap) (addr : UInt64) :
    (self - rhs).contains addr = (self.contains addr && !rhs.contains addr) :=
  contains_subAssign self rhs addr

/-! ### Point updates -/

theorem contains_of_lookup_eq_ite {map result : RowAddrTreeMap} {fragment : UInt32}
    {entry : Option RowAddrSelection}
    (changed : ∀ probe, result.inner.lookup probe =
      if probe = fragment then entry else map.inner.lookup probe)
    (addr : UInt64) :
    result.contains addr =
      if (RowAddress.mk addr).fragmentId = fragment then selectsRow entry (RowAddress.mk addr).rowOffset
      else map.contains addr := by
  rw [contains_eq, changed, contains_eq]
  split <;> rfl

theorem eq_iff_rowOffset_eq {addr value : UInt64}
    (sameFragment : (RowAddress.mk addr).fragmentId = (RowAddress.mk value).fragmentId) :
    addr = value ↔ (RowAddress.mk addr).rowOffset = (RowAddress.mk value).rowOffset := by
  rw [← RowAddress.mk.injEq, RowAddress.eq_iff_parts]
  exact and_iff_right sameFragment

/-- What `insert` leaves at the row's fragment. -/
def insertSelection (rowAddr : UInt32) : Option RowAddrSelection → Option RowAddrSelection
  | none => some (.partialRows {rowAddr})
  | some .full => some .full
  | some (.partialRows set) => some (.partialRows (Insert.insert rowAddr set))

theorem lookup_insert (map : RowAddrTreeMap) (value : UInt64) (probe : UInt32) :
    (map.insert value).1.inner.lookup probe =
      if probe = (RowAddress.mk value).fragmentId then
        insertSelection (RowAddress.mk value).rowOffset (map.inner.lookup (RowAddress.mk value).fragmentId)
      else map.inner.lookup probe := by
  by_cases same : probe = (RowAddress.mk value).fragmentId
  · rw [if_pos same, same]
    simp only [insert]
    split <;> simp_all [insertSelection, RowAddress.fragmentId, RowAddress.rowOffset]
  · rw [if_neg same]
    simp only [insert]
    split <;> simp_all [RowAddress.fragmentId]

theorem selectsRow_insertSelection (rowAddr : UInt32) (entry : Option RowAddrSelection) (row : UInt32) :
    selectsRow (insertSelection rowAddr entry) row = (selectsRow entry row || decide (row = rowAddr)) := by
  rcases entry with _ | _ | set
  · simp [insertSelection]
  · simp [insertSelection]
  · simp [insertSelection, Bool.or_comm]

theorem contains_insert (map : RowAddrTreeMap) (value addr : UInt64) :
    (map.insert value).1.contains addr = (map.contains addr || decide (addr = value)) := by
  rw [contains_of_lookup_eq_ite (lookup_insert map value) addr]
  split
  · rename_i sameFragment
    rw [selectsRow_insertSelection, contains_eq, sameFragment]
    congr 1
    exact decide_eq_decide.mpr (eq_iff_rowOffset_eq sameFragment).symm
  · rename_i otherFragment
    have differ : addr ≠ value := fun same => otherFragment (by rw [same])
    simp [differ]

theorem insert_snd (map : RowAddrTreeMap) (value : UInt64) :
    (map.insert value).2 = !map.contains value := by
  rw [contains_eq]
  simp only [insert, RowAddress.fragmentId, RowAddress.rowOffset]
  split <;> simp_all

/-- What `remove` leaves at the row's fragment. -/
def removeSelection (lower : UInt32) : Option RowAddrSelection → Option RowAddrSelection
  | none => none
  | some .full => some (.partialRows (Finset.univ.erase lower))
  | some (.partialRows lowerSet) =>
    if lowerSet.erase lower = ∅ then none else some (.partialRows (lowerSet.erase lower))

theorem lookup_remove (map : RowAddrTreeMap) (row : UInt64) (probe : UInt32) :
    (map.remove row).1.inner.lookup probe =
      if probe = (RowAddress.mk row).fragmentId then
        removeSelection (RowAddress.mk row).rowOffset (map.inner.lookup (RowAddress.mk row).fragmentId)
      else map.inner.lookup probe := by
  by_cases same : probe = (RowAddress.mk row).fragmentId
  · rw [if_pos same, same]
    simp only [remove]
    split
    · simp_all [removeSelection, RowAddress.fragmentId]
    · simp_all [removeSelection, RowAddress.fragmentId, RowAddress.rowOffset]
    · rename_i lowerSet found
      by_cases emptied : lowerSet.erase row.toUInt32 = ∅ <;>
        simp_all [removeSelection, RowAddress.fragmentId, RowAddress.rowOffset]
  · rw [if_neg same]
    simp only [remove]
    split
    · rfl
    · simp_all [RowAddress.fragmentId]
    · rename_i lowerSet found
      by_cases emptied : lowerSet.erase row.toUInt32 = ∅ <;> simp_all [RowAddress.fragmentId]

theorem selectsRow_removeSelection (lower : UInt32) (entry : Option RowAddrSelection) (row : UInt32) :
    selectsRow (removeSelection lower entry) row = (selectsRow entry row && !decide (row = lower)) := by
  rcases entry with _ | _ | lowerSet
  · rfl
  · simp [removeSelection]
  · by_cases emptied : lowerSet.erase lower = ∅
    · -- the bitmap held at most the removed row
      have only : row ∈ lowerSet → row = lower := by
        intro member
        by_contra other
        have kept : row ∈ lowerSet.erase lower := Finset.mem_erase.mpr ⟨other, member⟩
        rw [emptied] at kept
        exact Finset.notMem_empty row kept
      simp only [removeSelection, emptied, ↓reduceIte, selectsRow_none, selectsRow_some, contains_partialRows]
      by_cases member : row ∈ lowerSet
      · simp [only member]
      · simp [member]
    · simp [removeSelection, emptied, Bool.and_comm]

theorem contains_remove (map : RowAddrTreeMap) (row addr : UInt64) :
    (map.remove row).1.contains addr = (map.contains addr && !decide (addr = row)) := by
  rw [contains_of_lookup_eq_ite (lookup_remove map row) addr]
  split
  · rename_i sameFragment
    rw [selectsRow_removeSelection, contains_eq, sameFragment]
    congr 2
    exact decide_eq_decide.mpr (eq_iff_rowOffset_eq sameFragment).symm
  · rename_i otherFragment
    have differ : addr ≠ row := fun same => otherFragment (by rw [same])
    simp [differ]

theorem remove_snd (map : RowAddrTreeMap) (row : UInt64) :
    (map.remove row).2 = map.contains row := by
  rw [contains_eq]
  simp only [remove, RowAddress.fragmentId, RowAddress.rowOffset]
  split
  · simp_all
  · simp_all
  · rename_i lowerSet found
    split <;> simp_all

/-! ### `union_all` and `extend` -/

def entryOf {α : Type} (items : List α) : Option (List α) := if items = [] then none else some items

@[simp] theorem getD_entryOf {α : Type} (items : List α) : (entryOf items).getD [] = items := by
  unfold entryOf
  split
  · rename_i empty
    exact empty.symm
  · rfl

theorem entryOf_append_singleton {α : Type} (items : List α) (item : α) :
    entryOf (items ++ [item]) = some (items ++ [item]) := by
  simp [entryOf]

theorem groupStep_keyLocal :
    KeyLocal (fun (newMap : AList (fun _ : UInt32 => List RowAddrSelection)) fragment selection =>
      newMap.insert fragment ((newMap.lookup fragment).getD [] ++ [selection]))
      (fun selection grouped => some (grouped.getD [] ++ [selection])) := by
  intro newMap fragment selection probe
  by_cases same : probe = fragment
  · subst same
    simp
  · simp [AList.lookup_insert_ne same, same]

/-- The grouping pass gathers, for each fragment, the maps' entries in order. -/
theorem lookup_groupSelections (other : List RowAddrTreeMap) (fragment : UInt32) :
    (groupSelections other).lookup fragment =
      entryOf (other.filterMap fun map => map.inner.lookup fragment) := by
  -- the run invariant: the grouped entry is the entries of the maps seen so far
  suffices running : ∀ (maps : List RowAddrTreeMap) (seen : List RowAddrSelection)
      (newMap : AList (fun _ : UInt32 => List RowAddrSelection)), newMap.lookup fragment = entryOf seen →
      (maps.foldl (fun newMap map => map.iter.foldl (fun newMap entry =>
        newMap.insert entry.1 ((newMap.lookup entry.1).getD [] ++ [entry.2])) newMap) newMap).lookup fragment =
        entryOf (seen ++ maps.filterMap fun map => map.inner.lookup fragment) by
    exact running other [] ∅ rfl
  intro maps
  induction maps with
  | nil => intro seen newMap start; simpa using start
  | cons map rest ih =>
    intro seen newMap start
    have step := groupStep_keyLocal.lookup_foldl map.iter (nodupKeys_iter map) newMap fragment
    rw [dlookup_iter, start] at step
    rw [List.foldl_cons]
    rcases found : map.inner.lookup fragment with _ | selection
    · rw [found] at step
      rw [@List.filterMap_cons_none _ _ (fun map : RowAddrTreeMap => map.inner.lookup fragment) map rest found]
      exact ih seen _ step
    · rw [found, Option.elim_some, getD_entryOf, ← entryOf_append_singleton] at step
      rw [@List.filterMap_cons_some _ _ (fun map : RowAddrTreeMap => map.inner.lookup fragment) map rest _ found,
        List.append_cons]
      exact ih (seen ++ [selection]) _ step

theorem unionAll_of_full {selections : List RowAddrSelection}
    (isFull : selections.any (fun selection => (RowAddrSelection.partialBitmap selection).isNone) = true) :
    RowAddrSelection.unionAll selections = .full := by
  simp only [RowAddrSelection.unionAll, isFull, ↓reduceIte]

theorem unionAll_of_none_full {selections : List RowAddrSelection}
    (isPartial : selections.any (fun selection => (RowAddrSelection.partialBitmap selection).isNone) = false) :
    RowAddrSelection.unionAll selections =
      .partialRows ((selections.filterMap RowAddrSelection.partialBitmap).foldl (· ∪ ·) ∅) := by
  simp only [RowAddrSelection.unionAll, isPartial, Bool.false_eq_true, ↓reduceIte]

theorem contains_unionAll_selection (selections : List RowAddrSelection) (row : UInt32) :
    (RowAddrSelection.unionAll selections).contains row = selections.any (·.contains row) := by
  cases isFull : selections.any (fun selection => (RowAddrSelection.partialBitmap selection).isNone) with
  | true =>
    -- a full selection among them holds the row too
    obtain ⟨whole, member, isWhole⟩ := List.any_eq_true.mp isFull
    have found : selections.any (·.contains row) = true := by
      apply List.any_eq_true.mpr
      refine ⟨whole, member, ?_⟩
      cases whole <;> simp_all [RowAddrSelection.partialBitmap]
    rw [unionAll_of_full isFull, found, contains_full]
  | false =>
    have partials : ∀ selection ∈ selections, ∃ bitmap, selection = .partialRows bitmap := by
      intro selection member
      cases selection with
      | full =>
        have held : selections.any (fun selection => (RowAddrSelection.partialBitmap selection).isNone) = true :=
          List.any_eq_true.mpr ⟨RowAddrSelection.full, member, rfl⟩
        rw [isFull] at held
        cases held
      | partialRows bitmap => exact ⟨bitmap, rfl⟩
    rw [unionAll_of_none_full isFull, contains_partialRows, Bool.eq_iff_iff, decide_eq_true_iff,
      mem_foldl_union, List.any_eq_true]
    simp only [Finset.notMem_empty, false_or, List.mem_filterMap]
    constructor
    · rintro ⟨bitmap, ⟨selection, member, picked⟩, inside⟩
      obtain ⟨same, rfl⟩ := partials selection member
      cases picked
      exact ⟨_, member, by simpa using inside⟩
    · rintro ⟨selection, member, holds⟩
      obtain ⟨bitmap, rfl⟩ := partials selection member
      exact ⟨bitmap, ⟨_, member, rfl⟩, by simpa using holds⟩

theorem contains_unionAll (other : List RowAddrTreeMap) (addr : UInt64) :
    (unionAll other).contains addr = other.any (·.contains addr) := by
  rw [contains_eq]
  simp only [unionAll, lookup_mapValues, lookup_groupSelections]
  by_cases nothing : (other.filterMap fun map => map.inner.lookup (RowAddress.mk addr).fragmentId) = []
  · -- no map holds the fragment
    rw [entryOf, if_pos nothing, Option.map_none, selectsRow_none]
    symm
    rw [List.any_eq_false]
    intro map member
    rw [contains_eq, List.filterMap_eq_nil_iff.mp nothing map member]
    simp
  · rw [entryOf, if_neg nothing, Option.map_some, selectsRow_some, contains_unionAll_selection,
      List.any_filterMap]
    apply congrArg (List.any other)
    funext map
    rw [contains_eq]
    rcases map.inner.lookup (RowAddress.mk addr).fragmentId <;> rfl

theorem contains_extend (self : RowAddrTreeMap) (iter : List RowAddrTreeMap) (addr : UInt64) :
    (self.extend iter).contains addr = (self.contains addr || iter.any (·.contains addr)) := by
  unfold extend
  induction iter generalizing self with
  | nil => simp
  | cons other rest ih =>
    rw [List.foldl_cons, ih, contains_bitorAssign, List.any_cons, Bool.or_assoc]

theorem contains_mask (map : RowAddrTreeMap) (mask : RowAddrMask) (addr : UInt64) :
    (map.mask mask).contains addr = (map.contains addr && mask.selected addr) := by
  cases mask with
  | allowList allow => exact contains_and map allow addr
  | blockList block => exact contains_sub map block addr

/-! ### The operations as set operations -/

theorem addrs_or (self rhs : RowAddrTreeMap) : (self ||| rhs).addrs = self.addrs ∪ rhs.addrs := by
  ext addr
  simp [mem_addrs, contains_or]

theorem addrs_and (self rhs : RowAddrTreeMap) : (self &&& rhs).addrs = self.addrs ∩ rhs.addrs := by
  ext addr
  simp [mem_addrs, contains_and]

theorem addrs_sub (self rhs : RowAddrTreeMap) : (self - rhs).addrs = self.addrs \ rhs.addrs := by
  ext addr
  simp [mem_addrs, contains_sub]

theorem addrs_unionAll (other : List RowAddrTreeMap) : (unionAll other).addrs = ⋃ map ∈ other, map.addrs := by
  ext addr
  simp [mem_addrs, contains_unionAll]

theorem addrs_extend (self : RowAddrTreeMap) (iter : List RowAddrTreeMap) :
    (self.extend iter).addrs = self.addrs ∪ ⋃ map ∈ iter, map.addrs := by
  ext addr
  simp [mem_addrs, contains_extend]

theorem addrs_insert (map : RowAddrTreeMap) (value : UInt64) :
    (map.insert value).1.addrs = Insert.insert value map.addrs := by
  ext addr
  simp [mem_addrs, contains_insert, or_comm]

theorem insert_snd_iff (map : RowAddrTreeMap) (value : UInt64) :
    (map.insert value).2 = true ↔ value ∉ map.addrs := by
  simp [mem_addrs, insert_snd]

theorem addrs_remove (map : RowAddrTreeMap) (row : UInt64) :
    (map.remove row).1.addrs = map.addrs \ {row} := by
  ext addr
  simp [mem_addrs, contains_remove]

theorem remove_snd_iff (map : RowAddrTreeMap) (row : UInt64) :
    (map.remove row).2 = true ↔ row ∈ map.addrs := by
  simp [mem_addrs, remove_snd]

theorem addrs_mask (map : RowAddrTreeMap) (mask : RowAddrMask) :
    (map.mask mask).addrs = {addr ∈ map.addrs | mask.selected addr = true} := by
  ext addr
  simp [mem_addrs, contains_mask]

/-- Every operation of `RowSetOps`, of the operators and of `Extend` is the set
operation of its name on the addresses the maps denote, and `mask` filters by
the mask. -/
theorem addrs_operations (a b : RowAddrTreeMap) (maps : List RowAddrTreeMap) (mask : RowAddrMask)
    (x : UInt64) :
    (a ||| b).addrs = a.addrs ∪ b.addrs ∧
    (a &&& b).addrs = a.addrs ∩ b.addrs ∧
    (a - b).addrs = a.addrs \ b.addrs ∧
    (unionAll maps).addrs = ⋃ map ∈ maps, map.addrs ∧
    (a.extend maps).addrs = a.addrs ∪ ⋃ map ∈ maps, map.addrs ∧
    (a.contains x = true ↔ x ∈ a.addrs) ∧
    ((a.insert x).1.addrs = Insert.insert x a.addrs ∧ ((a.insert x).2 = true ↔ x ∉ a.addrs)) ∧
    ((a.remove x).1.addrs = a.addrs \ {x} ∧ ((a.remove x).2 = true ↔ x ∈ a.addrs)) ∧
    (a.mask mask).addrs = {addr ∈ a.addrs | mask.selected addr = true} :=
  ⟨addrs_or a b, addrs_and a b, addrs_sub a b, addrs_unionAll maps, addrs_extend a maps, mem_addrs.symm,
    ⟨addrs_insert a x, insert_snd_iff a x⟩, ⟨addrs_remove a x, remove_snd_iff a x⟩, addrs_mask a mask⟩

end RowAddrTreeMap

namespace RowAddrMask

open RowAddrTreeMap

theorem selected_and (mask other : RowAddrMask) (rowId : UInt64) :
    (mask &&& other).selected rowId = (mask.selected rowId && other.selected rowId) := by
  cases mask with
  | allowList a =>
    cases other with
    | allowList b => exact contains_and a b rowId
    | blockList block => exact contains_sub a block rowId
  | blockList block =>
    cases other with
    | allowList allow =>
      show (allow - block).contains rowId = (!block.contains rowId && allow.contains rowId)
      rw [contains_sub, Bool.and_comm]
    | blockList b =>
      show (!(block ||| b).contains rowId) = (!block.contains rowId && !b.contains rowId)
      rw [contains_or, Bool.not_or]

theorem selected_or (mask other : RowAddrMask) (rowId : UInt64) :
    (mask ||| other).selected rowId = (mask.selected rowId || other.selected rowId) := by
  cases mask with
  | allowList a =>
    cases other with
    | allowList b => exact contains_or a b rowId
    | blockList block =>
      show (!(block - a).contains rowId) = (a.contains rowId || !block.contains rowId)
      rw [contains_sub, Bool.not_and, Bool.not_not, Bool.or_comm]
  | blockList block =>
    cases other with
    | allowList allow =>
      show (!(block - allow).contains rowId) = (!block.contains rowId || allow.contains rowId)
      rw [contains_sub, Bool.not_and, Bool.not_not]
    | blockList b =>
      show (!(block &&& b).contains rowId) = (!block.contains rowId || !b.contains rowId)
      rw [contains_and, Bool.not_and]

theorem selected_not (mask : RowAddrMask) (rowId : UInt64) : (~~~mask).selected rowId = !mask.selected rowId := by
  cases mask with
  | allowList allow => rfl
  | blockList block => exact (Bool.not_not _).symm

theorem selected_alsoBlock (mask : RowAddrMask) (blockList : RowAddrTreeMap) (rowId : UInt64) :
    (mask.alsoBlock blockList).selected rowId = (mask.selected rowId && !blockList.contains rowId) := by
  cases mask with
  | allowList allow => exact contains_sub allow blockList rowId
  | blockList existing =>
    show (!(existing ||| blockList).contains rowId) = (!existing.contains rowId && !blockList.contains rowId)
    rw [contains_or, Bool.not_or]

theorem selected_alsoAllow (mask : RowAddrMask) (allowList : RowAddrTreeMap) (rowId : UInt64) :
    (mask.alsoAllow allowList).selected rowId = (mask.selected rowId || allowList.contains rowId) := by
  cases mask with
  | allowList existing => exact contains_or existing allowList rowId
  | blockList block =>
    show (!(block - allowList).contains rowId) = (!block.contains rowId || allowList.contains rowId)
    rw [contains_sub, Bool.not_and, Bool.not_not]

end RowAddrMask

end Lance.Select
