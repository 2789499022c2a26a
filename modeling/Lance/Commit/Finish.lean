import Mathlib.Data.Finset.Union
import Lance.Commit.ConflictResolver

/-! `TransactionRebase::finish` of `io/commit/conflict_resolver.rs` for a data
overlay and for a delete or update, the two that read deletion files.

After the checks, an overlay is checked row by row on each fragment that a
concurrent row-moving update flagged: the rows that update moved are the
fragment's current deletion vector less the one it had at the read version,
and the overlay conflicts when they meet the offsets it covers. The source
walks a `HashMap` of coverage by fragment in no set order; the model walks it
in the order of its association list.

A delete or update whose fragments a concurrent transaction gave new deletion
files is rebased row by row: the current deletion vectors of those fragments
are read, a row we delete that is already deleted is a conflict, and otherwise
each fragment gets a deletion file holding both, or is removed when that
deletes all its rows. Reading and writing a deletion file are parameters, and
so is a fragment's `physical_rows`, which the fragment record here does not
keep. The source reads the deletion files concurrently and collects them in
order; the model reads them one after another. A panic is an outer `none`. -/

namespace Lance.Commit

open Lance.Select

/-- `read_fragment_deletion_bitmap`: the deletion vector of a fragment, empty
when it has no deletion file. `read_dataset_deletion_file` is the parameter. -/
def readFragmentDeletionBitmap (readDeletionFile : Nat → DeletionFile → Except Error RoaringBitmap)
    (fragment : Fragment) : Except Error RoaringBitmap :=
  match fragment.deletionFile with
  | some deletionFile => readDeletionFile fragment.id deletionFile
  | none => .ok ∅

namespace TransactionRebase

/-- `fragments_to_check`: the fragments flagged for a row check. -/
def fragmentsToCheck (initialFragments : FragmentMap) : List Nat :=
  initialFragments.entries.filterMap fun entry => if entry.2.2 then some entry.1 else none

/-- One round of the loop that builds `coverage_by_fragment`: a group on a
flagged fragment adds its coverage to the fragment's entry, made empty if new. -/
def addGroupCoverage (fragmentsToCheck : List Nat) (coverage : AList (fun _ : Nat => RoaringBitmap))
    (group : DataOverlayGroup) : AList (fun _ : Nat => RoaringBitmap) :=
  if fragmentsToCheck.contains group.fragmentId then
    coverage.insert group.fragmentId ((coverage.lookup group.fragmentId).getD ∅ ∪ overlayGroupCoverage group)
  else coverage

/-- `coverage_by_fragment`: the coverage of the groups on each flagged
fragment, unioned. -/
def coverageByFragment (fragmentsToCheck : List Nat) (groups : List DataOverlayGroup) :
    AList (fun _ : Nat => RoaringBitmap) :=
  groups.foldl (addGroupCoverage fragmentsToCheck) ∅

/-- `initial_deletions`: the deletion vector of the fragment as it was read, or
none when it was not read. -/
def initialDeletions (readDeletionFile : Nat → DeletionFile → Except Error RoaringBitmap)
    (initialFragments : FragmentMap) (fragmentId : Nat) : Except Error RoaringBitmap :=
  match initialFragments.lookup fragmentId with
  | some (initialFragment, _) => readFragmentDeletionBitmap readDeletionFile initialFragment
  | none => .ok ∅

/-- The loop of `finish_data_overlay` over the flagged fragments and their
coverage. -/
def checkFlaggedFragments (readDeletionFile : Nat → DeletionFile → Except Error RoaringBitmap)
    (initialFragments : FragmentMap) (dataset : Dataset) :
    List (Σ _ : Nat, RoaringBitmap) → Except Error Unit
  | [] => .ok ()
  | ⟨fragmentId, coverage⟩ :: rest =>
    match dataset.fragments.find? (·.id == fragmentId) with
    -- the fragment is gone, and the overlay is orphaned
    | none => .error (retryableConflictErr dataset.version)
    | some currentFragment => do
      let currentDeletions ← readFragmentDeletionBitmap readDeletionFile currentFragment
      let initialDeletions ← initialDeletions readDeletionFile initialFragments fragmentId
      if ((currentDeletions \ initialDeletions) ∩ coverage).Nonempty then
        .error (retryableConflictErr dataset.version)
      else checkFlaggedFragments readDeletionFile initialFragments dataset rest

/-- `finish_data_overlay`: the transaction moved to the dataset's version, once
no flagged fragment has lost a row the overlay covers. -/
def finishDataOverlay (readDeletionFile : Nat → DeletionFile → Except Error RoaringBitmap)
    (self : TransactionRebase) (dataset : Dataset) : Except Error Transaction :=
  let rebased := { self.transaction with readVersion := dataset.version }
  let toCheck := fragmentsToCheck self.initialFragments
  if toCheck.isEmpty then .ok rebased
  else
    match self.transaction.operation with
    | .dataOverlay groups =>
      (checkFlaggedFragments readDeletionFile self.initialFragments dataset
        (coverageByFragment toCheck groups).entries).map fun _ => rebased
    | _ => .error .internal

/-! ## The flagged fragments and their coverage -/

theorem mem_fragmentsToCheck {initialFragments : FragmentMap} {fragmentId : Nat} :
    fragmentId ∈ fragmentsToCheck initialFragments ↔
      ∃ fragment, initialFragments.lookup fragmentId = some (fragment, true) := by
  simp only [fragmentsToCheck, List.mem_filterMap, Option.ite_none_right_eq_some, Option.some.injEq]
  constructor
  · rintro ⟨⟨id, fragment, flag⟩, member, flagged, rfl⟩
    exact ⟨fragment, AList.mem_lookup_iff.mpr (by simpa using flagged ▸ member)⟩
  · rintro ⟨fragment, found⟩
    exact ⟨⟨fragmentId, fragment, true⟩, AList.mem_lookup_iff.mp found, rfl, rfl⟩

/-- The offsets of a fragment that some overlay of a group on it covers: the
coverage `finish_data_overlay` compares with the moved rows, stated at once. -/
def overlayCoverage (groups : List DataOverlayGroup) (fragmentId : Nat) : RoaringBitmap :=
  (groups.filter (·.fragmentId = fragmentId)).toFinset.biUnion overlayGroupCoverage

theorem mem_overlayCoverage {groups : List DataOverlayGroup} {fragmentId : Nat} {offset : UInt32} :
    offset ∈ overlayCoverage groups fragmentId ↔
      ∃ group ∈ groups, group.fragmentId = fragmentId ∧ offset ∈ overlayGroupCoverage group := by
  simp only [overlayCoverage, Finset.mem_biUnion, List.mem_toFinset, List.mem_filter, decide_eq_true_eq]
  exact exists_congr fun _ => and_assoc

theorem mem_foldl_addGroupCoverage {toCheck : List Nat} {fragmentId : Nat} :
    ∀ (groups : List DataOverlayGroup) (coverage : AList (fun _ : Nat => RoaringBitmap)),
      fragmentId ∈ groups.foldl (addGroupCoverage toCheck) coverage ↔
        fragmentId ∈ coverage ∨ (fragmentId ∈ toCheck ∧ ∃ group ∈ groups, group.fragmentId = fragmentId) := by
  intro groups
  induction groups with
  | nil => simp
  | cons group rest ih =>
    intro coverage
    rw [List.foldl_cons, ih]
    by_cases flagged : toCheck.contains group.fragmentId
    · have listed : group.fragmentId ∈ toCheck := by simpa using flagged
      simp only [addGroupCoverage, flagged, ↓reduceIte, AList.mem_insert, List.mem_cons, exists_eq_or_imp]
      constructor
      · rintro ((same | kept) | ⟨inside, later⟩)
        · exact .inr ⟨same ▸ listed, .inl same.symm⟩
        · exact .inl kept
        · exact .inr ⟨inside, .inr later⟩
      · rintro (kept | ⟨inside, (same | later)⟩)
        · exact .inl (.inr kept)
        · exact .inl (.inl same.symm)
        · exact .inr ⟨inside, later⟩
    · simp only [addGroupCoverage, flagged, Bool.false_eq_true, ↓reduceIte, List.mem_cons, exists_eq_or_imp]
      constructor
      · rintro (kept | ⟨inside, later⟩)
        · exact .inl kept
        · exact .inr ⟨inside, .inr later⟩
      · rintro (kept | ⟨inside, (same | later)⟩)
        · exact .inl kept
        · subst same
          simp [inside] at flagged
        · exact .inr ⟨inside, later⟩

theorem mem_getD_foldl_addGroupCoverage {toCheck : List Nat} {fragmentId : Nat} {offset : UInt32} :
    ∀ (groups : List DataOverlayGroup) (coverage : AList (fun _ : Nat => RoaringBitmap)),
      offset ∈ ((groups.foldl (addGroupCoverage toCheck) coverage).lookup fragmentId).getD ∅ ↔
        offset ∈ (coverage.lookup fragmentId).getD ∅ ∨ (fragmentId ∈ toCheck ∧
          ∃ group ∈ groups, group.fragmentId = fragmentId ∧ offset ∈ overlayGroupCoverage group) := by
  intro groups
  induction groups with
  | nil => simp
  | cons group rest ih =>
    intro coverage
    rw [List.foldl_cons, ih]
    by_cases flagged : toCheck.contains group.fragmentId
    · have listed : group.fragmentId ∈ toCheck := by simpa using flagged
      by_cases same : fragmentId = group.fragmentId
      · subst same
        simp only [addGroupCoverage, flagged, ↓reduceIte, AList.lookup_insert, Option.getD_some,
          Finset.mem_union, List.mem_cons, exists_eq_or_imp, true_and, listed, or_assoc]
      · simp only [addGroupCoverage, flagged, ↓reduceIte, AList.lookup_insert_ne same, List.mem_cons,
          exists_eq_or_imp, Ne.symm same, false_and, false_or]
    · simp only [addGroupCoverage, flagged, Bool.false_eq_true, ↓reduceIte, List.mem_cons, exists_eq_or_imp]
      constructor
      · rintro (kept | ⟨inside, later⟩)
        · exact .inl kept
        · exact .inr ⟨inside, .inr later⟩
      · rintro (kept | ⟨inside, (⟨same, _⟩ | later)⟩)
        · exact .inl kept
        · subst same
          simp [inside] at flagged
        · exact .inr ⟨inside, later⟩

/-- `coverage_by_fragment` holds one entry for each flagged fragment that a
group is on, with the coverage of all the groups on it. -/
theorem mem_coverageByFragment_entries {toCheck : List Nat} {groups : List DataOverlayGroup}
    {entry : Σ _ : Nat, RoaringBitmap} :
    entry ∈ (coverageByFragment toCheck groups).entries ↔
      entry.1 ∈ toCheck ∧ (∃ group ∈ groups, group.fragmentId = entry.1) ∧
        entry.2 = overlayCoverage groups entry.1 := by
  obtain ⟨fragmentId, coverage⟩ := entry
  have present : fragmentId ∈ groups.foldl (addGroupCoverage toCheck) ∅ ↔
      fragmentId ∈ (∅ : AList (fun _ : Nat => RoaringBitmap)) ∨
        (fragmentId ∈ toCheck ∧ ∃ group ∈ groups, group.fragmentId = fragmentId) :=
    mem_foldl_addGroupCoverage groups ∅
  have union : ((coverageByFragment toCheck groups).lookup fragmentId).getD ∅ =
      if fragmentId ∈ toCheck then overlayCoverage groups fragmentId else ∅ := by
    ext offset
    rw [coverageByFragment, mem_getD_foldl_addGroupCoverage]
    split <;> simp_all [mem_overlayCoverage]
  rw [← AList.mem_lookup_iff, Option.mem_def]
  constructor
  · intro found
    have inside : fragmentId ∈ coverageByFragment toCheck groups := by
      rw [← AList.lookup_isSome, found]
      rfl
    rw [coverageByFragment, present] at inside
    simp only [AList.notMem_empty, false_or] at inside
    rw [found, Option.getD_some, if_pos inside.1] at union
    exact ⟨inside.1, inside.2, union⟩
  · rintro ⟨listed, onFragment, same⟩
    dsimp only at listed onFragment same
    subst same
    have inside : fragmentId ∈ coverageByFragment toCheck groups := by
      rw [coverageByFragment, present]
      exact .inr ⟨listed, onFragment⟩
    obtain ⟨found, same⟩ := Option.isSome_iff_exists.mp (AList.lookup_isSome.mpr inside)
    rw [same, Option.getD_some, if_pos listed] at union
    rw [same, union]

theorem coverageByFragment_nil (groups : List DataOverlayGroup) : coverageByFragment [] groups = ∅ := by
  rw [coverageByFragment]
  exact List.foldl_fixed' (fun group => by simp [addGroupCoverage]) groups

/-! ## The row check -/

/-- What the loop reads of a flagged fragment succeeds: the fragment is in the
dataset, both deletion vectors can be read, and the rows deleted since the
read version are `moved`. -/
def ReadsMoved (readDeletionFile : Nat → DeletionFile → Except Error RoaringBitmap)
    (initialFragments : FragmentMap) (dataset : Dataset) (fragmentId : Nat) (moved : RoaringBitmap) : Prop :=
  ∃ currentFragment currentDeletions initial,
    dataset.fragments.find? (·.id == fragmentId) = some currentFragment ∧
    readFragmentDeletionBitmap readDeletionFile currentFragment = .ok currentDeletions ∧
    initialDeletions readDeletionFile initialFragments fragmentId = .ok initial ∧
    currentDeletions \ initial = moved

/-- Once every read succeeds, the loop fails, with a retryable conflict, exactly
when the moved rows of some flagged fragment meet its coverage. -/
theorem checkFlaggedFragments_eq {readDeletionFile : Nat → DeletionFile → Except Error RoaringBitmap}
    {initialFragments : FragmentMap} {dataset : Dataset} {moved : Nat → RoaringBitmap} :
    ∀ {entries : List (Σ _ : Nat, RoaringBitmap)},
      (∀ entry ∈ entries, ReadsMoved readDeletionFile initialFragments dataset entry.1 (moved entry.1)) →
        checkFlaggedFragments readDeletionFile initialFragments dataset entries =
          if ∃ entry ∈ entries, (moved entry.1 ∩ entry.2).Nonempty then
            .error (retryableConflictErr dataset.version)
          else .ok () := by
  intro entries
  induction entries with
  | nil => simp [checkFlaggedFragments]
  | cons entry rest ih =>
    obtain ⟨fragmentId, coverage⟩ := entry
    intro reads
    obtain ⟨currentFragment, currentDeletions, initial, found, readCurrent, readInitial, diff⟩ :=
      reads _ List.mem_cons_self
    have later := ih fun other member => reads other (List.mem_cons_of_mem _ member)
    simp only [checkFlaggedFragments, found, readCurrent, readInitial, diff, bind, Except.bind, later]
    by_cases hit : (moved fragmentId ∩ coverage).Nonempty
    · simp only [hit, ↓reduceIte]
      rw [if_pos ⟨_, List.mem_cons_self, hit⟩]
    · have restOnly : (∃ entry ∈ (⟨fragmentId, coverage⟩ :: rest : List (Σ _ : Nat, RoaringBitmap)),
          (moved entry.1 ∩ entry.2).Nonempty) ↔ ∃ entry ∈ rest, (moved entry.1 ∩ entry.2).Nonempty := by
        simp [hit]
      simp only [hit, ↓reduceIte, restOnly]

/-- On an overlay, `finish_data_overlay` is the row check over the coverage of
the flagged fragments: with none flagged, that coverage is empty. -/
theorem finishDataOverlay_of_dataOverlay (readDeletionFile : Nat → DeletionFile → Except Error RoaringBitmap)
    {self : TransactionRebase} {groups : List DataOverlayGroup}
    (overlay : self.transaction.operation = .dataOverlay groups) (dataset : Dataset) :
    finishDataOverlay readDeletionFile self dataset =
      (checkFlaggedFragments readDeletionFile self.initialFragments dataset
        (coverageByFragment (fragmentsToCheck self.initialFragments) groups).entries).map
          fun _ => { self.transaction with readVersion := dataset.version } := by
  unfold finishDataOverlay
  by_cases empty : (fragmentsToCheck self.initialFragments).isEmpty
  · have unflagged : fragmentsToCheck self.initialFragments = [] := List.isEmpty_iff.mp empty
    simp only [unflagged, List.isEmpty_nil, ↓reduceIte, coverageByFragment_nil]
    rfl
  · simp only [empty, Bool.false_eq_true, ↓reduceIte, overlay]

/-! ## Deletes and updates -/

/-- `fragments_ids_to_rewrite`: the ids of the fragments flagged for a rewrite. -/
def fragmentIdsToRewrite (initialFragments : FragmentMap) : List Nat :=
  initialFragments.entries.filterMap fun entry => if entry.2.2 then some entry.2.1.id else none

/-- `files_to_rewrite`: the deletion files of the current fragments with those
ids, in the dataset's order. -/
def filesToRewrite (dataset : Dataset) (fragmentIds : List Nat) : List (Nat × Option DeletionFile) :=
  dataset.fragments.filterMap fun fragment =>
    if fragmentIds.contains fragment.id then some (fragment.id, fragment.deletionFile) else none

/-- `existing_deletion_vecs`: each deletion file read; a fragment without one
panics at its `expect`. -/
def existingDeletionVecs (readDeletionFile : Nat → DeletionFile → Except Error RoaringBitmap) :
    List (Nat × Option DeletionFile) → ExceptT Error Option (List (Nat × RoaringBitmap))
  | [] => pure []
  | (_, none) :: _ => ExceptT.mk none
  | (fragmentId, some deletionFile) :: rest =>
    match readDeletionFile fragmentId deletionFile with
    | .error failure => throw failure
    | .ok deletionVec => ((fragmentId, deletionVec) :: ·) <$> existingDeletionVecs readDeletionFile rest

/-- `existing_deletions`: the deletion vectors read, under `fragment_id as u32`. -/
def existingDeletions (deletionVecs : List (Nat × RoaringBitmap)) : RowAddrTreeMap :=
  deletionVecs.foldl (fun existing entry => existing.insertBitmap (UInt32.ofNat entry.1) entry.2) .new

/-- The loop over the fragments to rewrite: a fragment whose merged deletion
vector holds as many rows as it has is deleted, any other gets a new deletion
file. An `unwrap` panics where the merged map has no bitmap for the fragment,
and where the writer returns no file. -/
def rewriteDeletionFiles
    (writeDeletionFile : Nat → Nat → RoaringBitmap → Except Error (Option DeletionFile))
    (physicalRows : Fragment → Option Nat) (initialFragments : FragmentMap) (merged : RowAddrTreeMap)
    (version : Nat) : List Nat → ExceptT Error Option (List Nat × AList (fun _ : Nat => DeletionFile))
  | [] => pure ([], ∅)
  | fragmentId :: rest =>
    match merged.getFragmentBitmap (UInt32.ofNat fragmentId) with
    | none => ExceptT.mk none
    | some deletionVec =>
      if (initialFragments.lookup fragmentId).bind (physicalRows ·.1) = some deletionVec.card then
        (fun rewritten => (fragmentId :: rewritten.1, rewritten.2)) <$>
          rewriteDeletionFiles writeDeletionFile physicalRows initialFragments merged version rest
      else
        match writeDeletionFile fragmentId version deletionVec with
        | .error failure => throw failure
        | .ok none => ExceptT.mk none
        | .ok (some deletionFile) =>
          (fun rewritten => (rewritten.1, rewritten.2.insert fragmentId deletionFile)) <$>
            rewriteDeletionFiles writeDeletionFile physicalRows initialFragments merged version rest

/-- An updated fragment of ours, with the new deletion file written for it if
there is one. -/
def withNewDeletionFile (newDeletionFiles : AList (fun _ : Nat => DeletionFile)) (updated : Fragment) :
    Fragment :=
  match newDeletionFiles.lookup updated.id with
  | some deletionFile => { updated with deletionFile := some deletionFile }
  | none => updated

/-- The last step of the rebase: our updated fragments take their new deletion
files, and the fragments left without a row join the removed ones. -/
def rebaseDeletions (newDeletedFragIds : List Nat) (newDeletionFiles : AList (fun _ : Nat => DeletionFile)) :
    Operation → Operation
  | .update removedFragmentIds updatedFragments newFragments fieldsModified mergedGenerations updateMode
      insertedRowsFilter =>
    .update (removedFragmentIds ++ newDeletedFragIds) (updatedFragments.map (withNewDeletionFile newDeletionFiles))
      newFragments fieldsModified mergedGenerations updateMode insertedRowsFilter
  | .delete updatedFragments deletedFragmentIds =>
    .delete (updatedFragments.map (withNewDeletionFile newDeletionFiles)) (deletedFragmentIds ++ newDeletedFragIds)
  | operation => operation

def finishDeleteUpdate (readDeletionFile : Nat → DeletionFile → Except Error RoaringBitmap)
    (writeDeletionFile : Nat → Nat → RoaringBitmap → Except Error (Option DeletionFile))
    (physicalRows : Fragment → Option Nat) (self : TransactionRebase) (dataset : Dataset) :
    ExceptT Error Option Transaction :=
  if self.initialFragments.entries.any (·.2.2) then
    match self.affectedRows with
    | none => throw .internal
    | some affectedRows => do
      let fragmentIds := fragmentIdsToRewrite self.initialFragments
      let deletionVecs ← existingDeletionVecs readDeletionFile (filesToRewrite dataset fragmentIds)
      let existing := existingDeletions deletionVecs
      let conflictingRows := existing.bitandAssign affectedRows
      -- a row count that is unknown counts as a conflict
      if (conflictingRows.len.map fun count => decide (0 < count)).getD true then
        throw (retryableConflictErr dataset.version)
      else
        let merged := existing.bitorAssign affectedRows
        let rewritten ← rewriteDeletionFiles writeDeletionFile physicalRows self.initialFragments merged
          dataset.version fragmentIds
        pure { readVersion := dataset.version,
               operation := rebaseDeletions rewritten.1 rewritten.2 self.transaction.operation }
  else pure { self.transaction with readVersion := dataset.version }

end TransactionRebase

end Lance.Commit
