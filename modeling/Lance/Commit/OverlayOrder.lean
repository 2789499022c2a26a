import Lance.Commit.Finish
import Lance.Commit.RebaseFrame

/-! A data overlay and a concurrent update that moves the rows it touches out
to new fragments, committed in either order. Committed second, the update
compares the rows it moved, its affected rows, with the overlay's coverage in
`check_update_txn`. Committed second, the overlay only flags the fragments the
update touched in `check_data_overlay_txn`, and `finish_data_overlay` reads the
rows moved off the deletion vectors. The two come to the same answer when the
affected rows are the rows the update deleted. -/

namespace Lance.Commit

open Lance.Select Lance.Library

namespace TransactionRebase

/-- The rows of a fragment that the affected rows name, as `get_fragment_bitmap`
returns them for `fragment_id as u32`; none when it returns no bitmap. -/
def affectedRowsIn (affectedRows : RowAddrTreeMap) (fragmentId : Nat) : RoaringBitmap :=
  (affectedRows.getFragmentBitmap (UInt32.ofNat fragmentId)).getD ∅

/-- Reading the deletion files of two versions of a fragment succeeds, and the
rows deleted from the first to the second are `moved`. -/
def DeletedBetween (readDeletionFile : Nat → DeletionFile → Except Error RoaringBitmap)
    (before after : Fragment) (moved : RoaringBitmap) : Prop :=
  ∃ initial current, readFragmentDeletionBitmap readDeletionFile before = .ok initial ∧
    readFragmentDeletionBitmap readDeletionFile after = .ok current ∧ current \ initial = moved

theorem checkAll_single (env : ResolverEnv) (self : TransactionRebase) (other : Transaction)
    (otherVersion : Nat) : checkAll env self [(otherVersion, other)] = checkTxn env self other otherVersion := by
  simp [checkAll, checkStep]

theorem error_map_iff {α β : Type} {run : Except Error α} {f : α → β} :
    (∃ failure, run.map f = .error failure) ↔ ∃ failure, run = .error failure := by
  cases run <;> simp [Except.map]

/-! ## The update committed second -/

/-- The loop over the overlay's groups fails exactly when a group on a fragment
we modify covers a row we moved out of it, or we have no affected rows. -/
theorem checkMovedRowsAgainstOverlay_error_iff {self : TransactionRebase} {otherVersion : Nat} :
    ∀ {groups : List DataOverlayGroup},
      (∃ failure, checkMovedRowsAgainstOverlay self otherVersion groups = .error failure) ↔
        ∃ group ∈ groups, group.fragmentId ∈ self.modifiedFragmentIds ∧
          ∀ rows, self.affectedRows = some rows →
            (affectedRowsIn rows group.fragmentId ∩ overlayGroupCoverage group).Nonempty := by
  intro groups
  induction groups with
  | nil => simp [checkMovedRowsAgainstOverlay]
  | cons group rest ih =>
    rw [List.exists_mem_cons_iff, ← ih]
    by_cases listed : group.fragmentId ∈ self.modifiedFragmentIds
    · cases affected : self.affectedRows with
      | none => simp [checkMovedRowsAgainstOverlay, affected, listed]
      | some rows =>
        cases bitmap : rows.getFragmentBitmap (UInt32.ofNat group.fragmentId) with
        | none => simp [checkMovedRowsAgainstOverlay, affected, bitmap, affectedRowsIn]
        | some moved =>
          by_cases hit : (moved ∩ overlayGroupCoverage group).Nonempty
          · simp [checkMovedRowsAgainstOverlay, affected, bitmap, affectedRowsIn, hit, listed]
          · simp [checkMovedRowsAgainstOverlay, affected, bitmap, affectedRowsIn, hit]
    · simp [checkMovedRowsAgainstOverlay, listed]

/-- Committed second, a row-moving update is checked against an overlay by the
loop over the overlay's groups. -/
theorem checkTxn_update_after_overlay_error_iff (env : ResolverEnv) {self : TransactionRebase}
    {removed : List Nat} {updated newFragments : List Fragment} {fieldsModified : List Nat}
    {mergedGenerations : List MergedGeneration} {updateMode : Option UpdateMode}
    {insertedRowsFilter : Option KeyExistenceFilter}
    (own : self.transaction.operation =
      .update removed updated newFragments fieldsModified mergedGenerations updateMode insertedRowsFilter)
    (moves : movesRows newFragments updateMode = true)
    {other : Transaction} {groups : List DataOverlayGroup} (overlay : other.operation = .dataOverlay groups)
    (otherVersion : Nat) :
    (∃ failure, checkTxn env self other otherVersion = .error failure) ↔
      ∃ group ∈ groups, group.fragmentId ∈ self.modifiedFragmentIds ∧
        ∀ rows, self.affectedRows = some rows →
          (affectedRowsIn rows group.fragmentId ∩ overlayGroupCoverage group).Nonempty := by
  have checked : checkTxn env self other otherVersion =
      (checkMovedRowsAgainstOverlay self otherVersion groups).map fun _ => self := by
    simp only [checkTxn, own, checkUpdateTxn, updateKeyConflict, overlay, moves, Bool.not_true,
      Bool.false_eq_true, ↓reduceIte]
  rw [checked, error_map_iff, checkMovedRowsAgainstOverlay_error_iff]

theorem tryNew_update_affectedRows (dataset : Dataset) (checkoutVersion : Nat → Dataset)
    {transaction : Transaction} {removed : List Nat} {updated newFragments : List Fragment}
    {fieldsModified : List Nat} {mergedGenerations : List MergedGeneration}
    {updateMode : Option UpdateMode} {insertedRowsFilter : Option KeyExistenceFilter}
    (update : transaction.operation =
      .update removed updated newFragments fieldsModified mergedGenerations updateMode insertedRowsFilter)
    (touched : updated ≠ []) (rows : RowAddrTreeMap) :
    (tryNew dataset checkoutVersion transaction (some rows)).affectedRows = some rows := by
  have nonempty : updated.isEmpty = false := by
    cases updated with
    | nil => exact absurd rfl touched
    | cons _ _ => rfl
  simp [tryNew, update, nonempty, fresh]

/-! ## The overlay committed second -/

theorem tryNew_dataOverlay (dataset : Dataset) (checkoutVersion : Nat → Dataset) {transaction : Transaction}
    {groups : List DataOverlayGroup} (overlay : transaction.operation = .dataOverlay groups) :
    tryNew dataset checkoutVersion transaction none =
      fresh transaction
        (initialFragmentsForRebase dataset checkoutVersion transaction (groups.map DataOverlayGroup.fragmentId))
        (groups.map DataOverlayGroup.fragmentId) none := by
  simp [tryNew, overlay, modifiedFragmentIdsOf]

def Unflagged (map : FragmentMap) : Prop :=
  ∀ id entry, map.lookup id = some entry → entry.2 = false

theorem unflagged_foldl_insert :
    ∀ (fragments : List Fragment) (acc : FragmentMap), Unflagged acc →
      Unflagged (fragments.foldl (fun map fragment => map.insert fragment.id (fragment, false)) acc) := by
  intro fragments
  induction fragments with
  | nil => exact fun _ unflagged => unflagged
  | cons fragment rest ih =>
    intro acc unflagged
    apply ih
    intro id entry found
    by_cases same : id = fragment.id
    · subst same
      rw [AList.lookup_insert] at found
      cases found
      rfl
    · rw [AList.lookup_insert_ne same] at found
      exact unflagged id entry found

theorem initialFragmentsForRebase_unflagged (dataset : Dataset) (checkoutVersion : Nat → Dataset)
    (transaction : Transaction) (modified : List Nat) :
    Unflagged (initialFragmentsForRebase dataset checkoutVersion transaction modified) := by
  have empty : Unflagged ∅ := by
    intro id entry found
    simp at found
  unfold initialFragmentsForRebase collectFragments
  split
  · exact empty
  · exact unflagged_foldl_insert _ _ empty

/-- `markRowCheck` flags each fragment of the map that an updated fragment has
the id of, and changes nothing else. -/
theorem lookup_markRowCheck (fragmentId : Nat) :
    ∀ (updated : List Fragment) (initial : FragmentMap),
      (markRowCheck initial updated).lookup fragmentId =
        (initial.lookup fragmentId).map fun entry => (entry.1, entry.2 || updated.any (·.id == fragmentId)) := by
  intro updated
  induction updated with
  | nil => simp [markRowCheck]
  | cons fragment rest ih =>
    intro initial
    by_cases same : fragmentId = fragment.id
    · subst same
      cases found : initial.lookup fragment.id with
      | none => simp [markRowCheck, found, ih]
      | some entry => simp [markRowCheck, found, ih, AList.lookup_insert]
    · have differs : (fragment.id == fragmentId) = false := by simpa using Ne.symm same
      cases found : initial.lookup fragment.id with
      | none => simp [markRowCheck, found, ih, differs]
      | some entry => simp [markRowCheck, found, ih, AList.lookup_insert_ne same, differs]

/-- Flagged after the check are the fragments read that an updated fragment has
the id of. -/
theorem mem_fragmentsToCheck_markRowCheck {initial : FragmentMap} (unflagged : Unflagged initial)
    {updated : List Fragment} {fragmentId : Nat} :
    fragmentId ∈ fragmentsToCheck (markRowCheck initial updated) ↔
      ∃ entry, initial.lookup fragmentId = some entry ∧ ∃ fragment ∈ updated, fragment.id = fragmentId := by
  rw [mem_fragmentsToCheck, lookup_markRowCheck]
  constructor
  · rintro ⟨fragment, marked⟩
    obtain ⟨entry, found, same⟩ := Option.map_eq_some_iff.mp marked
    have touched : updated.any (·.id == fragmentId) = true := by
      have flag := congrArg Prod.snd same
      simpa [unflagged fragmentId entry found] using flag
    obtain ⟨updatedFragment, member, sameId⟩ := List.any_eq_true.mp touched
    exact ⟨entry, found, updatedFragment, member, by simpa using sameId⟩
  · rintro ⟨entry, found, updatedFragment, member, sameId⟩
    have touched : updated.any (·.id == fragmentId) = true :=
      List.any_eq_true.mpr ⟨updatedFragment, member, by simpa using sameId⟩
    exact ⟨entry.1, by simp [found, touched]⟩

/-! ## Both orders -/

/-- What a row-moving update committed at the same read version as an overlay
is assumed to be: it removes no fragment the overlay is on, its affected rows
name rows only of fragments it modifies, and on each fragment it updated they
are the rows deleted from it since the read version. -/
structure MovedRowsDeleted (readDeletionFile : Nat → DeletionFile → Except Error RoaringBitmap)
    (readFragments : List Fragment) (current : Dataset) (groups : List DataOverlayGroup)
    (removed : List Nat) (updated : List Fragment) (affected : RowAddrTreeMap) : Prop where
  keeps : ∀ group ∈ groups, group.fragmentId ∉ removed
  untouched : ∀ group ∈ groups, group.fragmentId ∉ updated.map Fragment.id ++ removed →
    affectedRowsIn affected group.fragmentId = ∅
  /-- Each updated fragment was there at the read version, -/
  read : ∀ fragment ∈ updated, ∃ before ∈ readFragments, before.id = fragment.id
  /-- and is the fragment of its id in the dataset the update committed. -/
  inPlace : ∀ fragment ∈ updated, current.fragments.find? (·.id == fragment.id) = some fragment
  deleted : ∀ fragment ∈ updated, ∀ before ∈ readFragments, before.id = fragment.id →
    DeletedBetween readDeletionFile before fragment (affectedRowsIn affected fragment.id)

section Orders

variable {readDeletionFile : Nat → DeletionFile → Except Error RoaringBitmap} {readFragments : List Fragment}
  {current : Dataset} {groups : List DataOverlayGroup} {removed : List Nat} {updated : List Fragment}
  {affected : RowAddrTreeMap}

theorem MovedRowsDeleted.updated_of_modified
    (assumed : MovedRowsDeleted readDeletionFile readFragments current groups removed updated affected)
    {group : DataOverlayGroup} (member : group ∈ groups)
    (modified : group.fragmentId ∈ updated.map Fragment.id ++ removed) :
    ∃ fragment ∈ updated, fragment.id = group.fragmentId := by
  rcases List.mem_append.mp modified with touched | dropped
  · exact List.mem_map.mp touched
  · exact absurd dropped (assumed.keeps group member)

theorem MovedRowsDeleted.updated_of_hit
    (assumed : MovedRowsDeleted readDeletionFile readFragments current groups removed updated affected)
    {fragmentId : Nat} (hit : (affectedRowsIn affected fragmentId ∩ overlayCoverage groups fragmentId).Nonempty) :
    ∃ group ∈ groups, group.fragmentId = fragmentId ∧
      (affectedRowsIn affected fragmentId ∩ overlayGroupCoverage group).Nonempty ∧
      ∃ fragment ∈ updated, fragment.id = fragmentId := by
  obtain ⟨offset, both⟩ := hit
  obtain ⟨moved, covered⟩ := Finset.mem_inter.mp both
  obtain ⟨group, member, onFragment, inGroup⟩ := mem_overlayCoverage.mp covered
  subst onFragment
  have modified : group.fragmentId ∈ updated.map Fragment.id ++ removed := by
    by_contra outside
    rw [assumed.untouched group member outside] at moved
    exact Finset.notMem_empty _ moved
  exact ⟨group, member, rfl, ⟨offset, Finset.mem_inter.mpr ⟨moved, inGroup⟩⟩,
    assumed.updated_of_modified member modified⟩

theorem error_ite_iff {α : Type} {P : Prop} [Decidable P] {failure : Error} {value : α} :
    (∃ other, (if P then .error failure else .ok value : Except Error α) = .error other) ↔ P := by
  by_cases holds : P <;> simp [holds]

variable (env : ResolverEnv) (checkoutVersion : Nat → Dataset) {overlay update : Transaction}
  {newFragments : List Fragment} {fieldsModified : List Nat} {mergedGenerations : List MergedGeneration}
  {updateMode : Option UpdateMode} {insertedRowsFilter : Option KeyExistenceFilter}

/-- Committed second, the update fails against the overlay exactly when the
overlay covers a row it moved out of a fragment it modifies. -/
theorem update_after_overlay_error_iff (latest : Dataset)
    (isOverlay : overlay.operation = .dataOverlay groups)
    (isUpdate : update.operation =
      .update removed updated newFragments fieldsModified mergedGenerations updateMode insertedRowsFilter)
    (moves : movesRows newFragments updateMode = true)
    (assumed : MovedRowsDeleted readDeletionFile readFragments current groups removed updated affected)
    (overlayVersion : Nat) :
    (∃ failure, checkAll env (tryNew latest checkoutVersion update (some affected))
        [(overlayVersion, overlay)] = .error failure) ↔
      ∃ fragmentId ∈ modifiedFragmentIdsOf update.operation,
        (affectedRowsIn affected fragmentId ∩ overlayCoverage groups fragmentId).Nonempty := by
  have own := (congrArg Transaction.operation (tryNew_transaction latest checkoutVersion update (some affected))).trans
    isUpdate
  have modified : modifiedFragmentIdsOf update.operation = updated.map Fragment.id ++ removed := by
    rw [isUpdate, modifiedFragmentIdsOf]
  -- an overlaid fragment we modify is one we updated, so `try_new` kept the affected rows
  have kept : ∀ group ∈ groups, group.fragmentId ∈ updated.map Fragment.id ++ removed →
      (tryNew latest checkoutVersion update (some affected)).affectedRows = some affected := by
    intro group member listed
    obtain ⟨fragment, touched, _⟩ := assumed.updated_of_modified member listed
    exact tryNew_update_affectedRows latest checkoutVersion isUpdate (List.ne_nil_of_mem touched) affected
  rw [checkAll_single, checkTxn_update_after_overlay_error_iff env own moves isOverlay,
    tryNew_modifiedFragmentIds, modified]
  constructor
  · rintro ⟨group, member, listed, covers⟩
    obtain ⟨offset, both⟩ := covers affected (kept group member listed)
    obtain ⟨moved, inGroup⟩ := Finset.mem_inter.mp both
    refine ⟨group.fragmentId, listed, offset, Finset.mem_inter.mpr ⟨moved, ?_⟩⟩
    exact mem_overlayCoverage.mpr ⟨group, member, rfl, inGroup⟩
  · rintro ⟨fragmentId, listed, hit⟩
    obtain ⟨group, member, rfl, covers, -⟩ := assumed.updated_of_hit hit
    refine ⟨group, member, listed, fun rows same => ?_⟩
    rw [kept group member listed] at same
    cases same
    exact covers

/-- Committed second, after the update, the overlay is flagged on the
fragments the update touched, and its finish fails exactly when the overlay
covers a row the update moved. -/
theorem overlay_after_update_error_iff (isOverlay : overlay.operation = .dataOverlay groups)
    (isUpdate : update.operation =
      .update removed updated newFragments fieldsModified mergedGenerations updateMode insertedRowsFilter)
    (moves : movesRows newFragments updateMode = true)
    (assumed : MovedRowsDeleted readDeletionFile (current.atVersion checkoutVersion overlay.readVersion).fragments
      current groups removed updated affected)
    (updateVersion : Nat) :
    (∃ failure, (checkAll env (tryNew current checkoutVersion overlay none) [(updateVersion, update)] >>=
        fun rebased => finishDataOverlay readDeletionFile rebased current) = .error failure) ↔
      ∃ fragmentId, (affectedRowsIn affected fragmentId ∩ overlayCoverage groups fragmentId).Nonempty := by
  let ids := groups.map DataOverlayGroup.fragmentId
  let initial := initialFragmentsForRebase current checkoutVersion overlay ids
  let checked : TransactionRebase :=
    { fresh overlay initial ids none with initialFragments := markRowCheck initial updated }
  have unflagged := initialFragmentsForRebase_unflagged current checkoutVersion overlay ids
  have keptAll : removed.any (groups.map DataOverlayGroup.fragmentId).contains = false := by
    rw [List.any_eq_false]
    intro id dropped overlaid
    obtain ⟨group, member, rfl⟩ := List.mem_map.mp (List.contains_iff_mem.mp overlaid)
    exact assumed.keeps group member dropped
  have afterCheck : checkAll env (tryNew current checkoutVersion overlay none) [(updateVersion, update)] =
      .ok checked := by
    rw [tryNew_dataOverlay current checkoutVersion isOverlay, checkAll_single]
    simp only [checkTxn, fresh, isOverlay, checkDataOverlayTxn, isUpdate, keptAll, moves,
      Bool.false_eq_true, ↓reduceIte]
    rfl
  -- each flagged fragment is one the update updated, read at the read version
  have reads : ∀ entry ∈ (coverageByFragment (fragmentsToCheck checked.initialFragments) groups).entries,
      ReadsMoved readDeletionFile checked.initialFragments current entry.1 (affectedRowsIn affected entry.1) := by
    intro entry member
    obtain ⟨listed, -, -⟩ := mem_coverageByFragment_entries.mp member
    obtain ⟨⟨before, flag⟩, found, fragment, touched, sameId⟩ :=
      (mem_fragmentsToCheck_markRowCheck unflagged).mp listed
    have origin := initialFragmentsForRebase_fromReadVersion current checkoutVersion overlay ids entry.1 before
      (by rw [found]; rfl)
    obtain ⟨initialDv, currentDv, readBefore, readAfter, diff⟩ :=
      assumed.deleted fragment touched before origin.1 (origin.2.trans sameId.symm)
    refine ⟨fragment, currentDv, initialDv, sameId ▸ assumed.inPlace fragment touched, readAfter, ?_,
      sameId ▸ diff⟩
    show initialDeletions readDeletionFile (markRowCheck initial updated) entry.1 = .ok initialDv
    rw [initialDeletions, lookup_markRowCheck, found, Option.map_some]
    exact readBefore
  rw [afterCheck]
  change (∃ failure, finishDataOverlay readDeletionFile checked current = .error failure) ↔ _
  rw [finishDataOverlay_of_dataOverlay readDeletionFile isOverlay current, error_map_iff,
    checkFlaggedFragments_eq reads, error_ite_iff]
  constructor
  · rintro ⟨entry, member, hit⟩
    obtain ⟨-, -, same⟩ := mem_coverageByFragment_entries.mp member
    exact ⟨entry.1, same ▸ hit⟩
  · rintro ⟨fragmentId, hit⟩
    obtain ⟨group, member, rfl, -, fragment, touched, sameId⟩ := assumed.updated_of_hit hit
    obtain ⟨before, read, sameBefore⟩ := assumed.read fragment touched
    have inside : group.fragmentId ∈ initial :=
      mem_initialFragmentsForRebase (List.mem_map_of_mem member) ⟨before, read, sameBefore.trans sameId⟩
    obtain ⟨entry, found⟩ := Option.isSome_iff_exists.mp (AList.lookup_isSome.mpr inside)
    have flagged : group.fragmentId ∈ fragmentsToCheck checked.initialFragments :=
      (mem_fragmentsToCheck_markRowCheck unflagged).mpr ⟨entry, found, fragment, touched, sameId⟩
    exact ⟨⟨group.fragmentId, overlayCoverage groups group.fragmentId⟩,
      mem_coverageByFragment_entries.mpr ⟨flagged, ⟨group, member, rfl⟩, rfl⟩, hit⟩

theorem overlay_after_removing_update_fails (readDeletionFile : Nat → DeletionFile → Except Error RoaringBitmap)
    (current : Dataset) (isOverlay : overlay.operation = .dataOverlay groups)
    (isUpdate : update.operation =
      .update removed updated newFragments fieldsModified mergedGenerations updateMode insertedRowsFilter)
    (updateVersion : Nat) (removes : ∃ group ∈ groups, group.fragmentId ∈ removed) :
    ∃ failure, (checkAll env (tryNew current checkoutVersion overlay none) [(updateVersion, update)] >>=
        fun rebased => finishDataOverlay readDeletionFile rebased current) = .error failure := by
  obtain ⟨group, member, dropped⟩ := removes
  have overlaid : removed.any (groups.map DataOverlayGroup.fragmentId).contains = true :=
    List.any_eq_true.mpr ⟨group.fragmentId, dropped, by simpa using ⟨group, member, rfl⟩⟩
  refine ⟨retryableConflictErr updateVersion, ?_⟩
  rw [tryNew_dataOverlay current checkoutVersion isOverlay, checkAll_single]
  simp [checkTxn, fresh, isOverlay, checkDataOverlayTxn, isUpdate, overlaid, bind, Except.bind]

/-- A data overlay and an update that moves rows, committed at one read version
with nothing else between them, conflict in either order exactly when the
overlay covers a row the update moved: committed second, the update fails
exactly then, and so does the overlay, checked and finished; the two orders
fail together. When the update removes a fragment the overlay is on and
commits first, the overlay fails. -/
theorem overlay_conflict_same_in_both_orders
    (readDeletionFile : Nat → DeletionFile → Except Error RoaringBitmap) (latest current : Dataset)
    (isOverlay : overlay.operation = .dataOverlay groups)
    (isUpdate : update.operation =
      .update removed updated newFragments fieldsModified mergedGenerations updateMode insertedRowsFilter)
    (affected : RowAddrTreeMap) (overlayVersion updateVersion : Nat) :
    (movesRows newFragments updateMode = true →
      MovedRowsDeleted readDeletionFile (current.atVersion checkoutVersion overlay.readVersion).fragments current
        groups removed updated affected →
      ((∃ failure, checkAll env (tryNew latest checkoutVersion update (some affected))
          [(overlayVersion, overlay)] = .error failure) ↔
        ∃ fragmentId ∈ modifiedFragmentIdsOf update.operation,
          (affectedRowsIn affected fragmentId ∩ overlayCoverage groups fragmentId).Nonempty) ∧
      ((∃ failure, (checkAll env (tryNew current checkoutVersion overlay none) [(updateVersion, update)] >>=
          fun rebased => finishDataOverlay readDeletionFile rebased current) = .error failure) ↔
        ∃ fragmentId, (affectedRowsIn affected fragmentId ∩ overlayCoverage groups fragmentId).Nonempty) ∧
      ((∃ failure, checkAll env (tryNew latest checkoutVersion update (some affected))
          [(overlayVersion, overlay)] = .error failure) ↔
        ∃ failure, (checkAll env (tryNew current checkoutVersion overlay none) [(updateVersion, update)] >>=
          fun rebased => finishDataOverlay readDeletionFile rebased current) = .error failure)) ∧
    ((∃ group ∈ groups, group.fragmentId ∈ removed) →
      ∃ failure, (checkAll env (tryNew current checkoutVersion overlay none) [(updateVersion, update)] >>=
        fun rebased => finishDataOverlay readDeletionFile rebased current) = .error failure) := by
  refine ⟨fun moves assumed => ?_, overlay_after_removing_update_fails env checkoutVersion readDeletionFile
    current isOverlay isUpdate updateVersion⟩
  have first := update_after_overlay_error_iff env checkoutVersion latest isOverlay isUpdate moves assumed
    overlayVersion
  have second := overlay_after_update_error_iff env checkoutVersion isOverlay isUpdate moves assumed updateVersion
  -- a covered row the update moved lies in a fragment it updated, hence modified
  have modifiedHit : (∃ fragmentId, (affectedRowsIn affected fragmentId ∩ overlayCoverage groups fragmentId).Nonempty) →
      ∃ fragmentId ∈ modifiedFragmentIdsOf update.operation,
        (affectedRowsIn affected fragmentId ∩ overlayCoverage groups fragmentId).Nonempty := by
    rintro ⟨fragmentId, hit⟩
    obtain ⟨-, -, -, -, fragment, touched, sameId⟩ := assumed.updated_of_hit hit
    refine ⟨fragmentId, ?_, hit⟩
    rw [isUpdate, modifiedFragmentIdsOf]
    exact List.mem_append_left _ (List.mem_map.mpr ⟨fragment, touched, sameId⟩)
  refine ⟨first, second, first.trans (second.trans ⟨modifiedHit, ?_⟩).symm⟩
  rintro ⟨fragmentId, -, hit⟩
  exact ⟨fragmentId, hit⟩

end Orders

/-- Row 0 of fragment 0, which the overlay covers, moved by the update to
fragment 1: the two orders both fail. -/
theorem overlay_conflict_same_in_both_orders_at_moved_row :
    let before : Fragment := ⟨0, [], none⟩
    let after : Fragment := ⟨0, [], some ⟨1, 0, .bitmap, some 1, none⟩⟩
    let moved : Fragment := ⟨1, [], none⟩
    let readDataset : Dataset := ⟨1, [before]⟩
    let current : Dataset := ⟨2, [after, moved]⟩
    let groups : List DataOverlayGroup := [⟨0, [⟨⟨"overlay.lance", [0], [0], 2, 0, 0, none⟩, .shared {0}, 2⟩]⟩]
    let overlay : Transaction := ⟨1, .dataOverlay groups⟩
    let update : Transaction := ⟨1, .update [] [after] [moved] [] [] none none⟩
    let affected : RowAddrTreeMap := ⟨AList.singleton 0 (.partialRows {0})⟩
    let env : ResolverEnv := ⟨fun _ _ => none, fun _ => .ok []⟩
    let readDeletionFile : Nat → DeletionFile → Except Error RoaringBitmap := fun _ _ => .ok {0}
    movesRows [moved] none = true ∧
      MovedRowsDeleted readDeletionFile (current.atVersion (fun _ => readDataset) overlay.readVersion).fragments
        current groups [] [after] affected ∧
      (∃ failure, checkAll env (tryNew current (fun _ => readDataset) update (some affected))
        [(2, overlay)] = .error failure) ∧
      ∃ failure, (checkAll env (tryNew current (fun _ => readDataset) overlay none) [(2, update)] >>=
        fun rebased => finishDataOverlay readDeletionFile rebased current) = .error failure := by
  intro before after moved readDataset current groups overlay update affected env readDeletionFile
  have moves : movesRows [moved] none = true := by decide
  have assumed : MovedRowsDeleted readDeletionFile
      (current.atVersion (fun _ => readDataset) overlay.readVersion).fragments current groups [] [after] affected := by
    refine ⟨by decide, by decide, by decide, by decide, ?_⟩
    intro fragment updatedMember read readMember _
    simp only [List.mem_singleton] at updatedMember
    have atRead : read = before := by simpa [Dataset.atVersion, current, overlay, readDataset] using readMember
    subst updatedMember atRead
    exact ⟨∅, {0}, rfl, rfl, by decide⟩
  have hit : (affectedRowsIn affected 0 ∩ overlayCoverage groups 0).Nonempty := ⟨0, by decide⟩
  have orders := (overlay_conflict_same_in_both_orders env (fun _ => readDataset) readDeletionFile current current
    (rfl : overlay.operation = .dataOverlay groups)
    (rfl : update.operation = .update [] [after] [moved] [] [] none none) affected 2 2).1 moves assumed
  exact ⟨moves, assumed, orders.1.mpr ⟨0, by decide, hit⟩, orders.2.1.mpr ⟨0, hit⟩⟩

end TransactionRebase

end Lance.Commit
