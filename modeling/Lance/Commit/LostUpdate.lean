import Lance.Commit.RebaseFrame

/-! Fragment-level lost-update safety of optimistic commit. When the
transaction being committed modifies a fragment that exists at its read
version, every concurrent transaction that removed or physically rewrote that
fragment fails `check_txn` with a commit conflict, at every state of the commit
loop, so the commit attempt fails. Between two deletes or updates, a concurrent
change of the fragment's data files is a conflict as well. -/

namespace Lance.Commit

open Lance.Select Lance.Library

namespace TransactionRebase

theorem retryableConflictErr_isConflict (otherVersion : Nat) :
    (retryableConflictErr otherVersion).IsConflict := trivial

theorem conflictIfTouched_error {self : TransactionRebase} {ids : List Nat} {otherVersion fragmentId : Nat}
    (listed : fragmentId ∈ ids) (modified : fragmentId ∈ self.modifiedFragmentIds) :
    self.conflictIfTouched ids otherVersion = .error (retryableConflictErr otherVersion) := by
  have touched : ids.any self.modifiedFragmentIds.contains = true :=
    List.any_eq_true.mpr ⟨fragmentId, listed, by simpa using modified⟩
  simp [conflictIfTouched, touched]

theorem markUpdatedFragments_error {otherVersion : Nat} :
    ∀ {updatedFragments : List Fragment} {initial : FragmentMap} {failure : Error},
      markUpdatedFragments otherVersion initial updatedFragments = .error failure →
        failure = retryableConflictErr otherVersion := by
  intro updatedFragments
  induction updatedFragments with
  | nil =>
    intro initial failure marked
    cases marked
  | cons updated rest ih =>
    intro initial failure marked
    simp only [markUpdatedFragments] at marked
    split at marked
    · split at marked
      · cases marked
        rfl
      · exact ih marked
    · exact ih marked

/-- A concurrent update of one of our fragments with other data files stops the
loop, wherever it stands in `updated_fragments`. -/
theorem markUpdatedFragments_changed_files {otherVersion : Nat} {changed : Fragment} :
    ∀ {updatedFragments : List Fragment} {initial : FragmentMap} {fragment : Fragment},
      changed ∈ updatedFragments →
      (initial.lookup changed.id).map Prod.fst = some fragment → fragment.files ≠ changed.files →
        ∃ failure, markUpdatedFragments otherVersion initial updatedFragments = .error failure := by
  intro updatedFragments
  induction updatedFragments with
  | nil =>
    intro initial fragment member
    simp at member
  | cons updated rest ih =>
    intro initial fragment member found differs
    simp only [markUpdatedFragments]
    split
    · rename_i current needsRewrite present
      split
      · exact ⟨_, rfl⟩
      · rename_i sameFiles
        rcases List.mem_cons.mp member with head | later
        · subst head
          rw [present] at found
          cases found
          exact absurd (not_not.mp sameFiles) differs
        · apply ih later _ differs
          rw [sameFragments_insert present changed.id]
          exact found
    · rename_i absent
      rcases List.mem_cons.mp member with head | later
      · subst head
        rw [absent] at found
        cases found
      · exact ih later found differs

theorem checkDeleteUpdateOverlap_no_rows {self : TransactionRebase}
    {updatedFragments : List Fragment} {removedFragmentIds : List Nat} {otherVersion : Nat}
    (touched : (updatedFragments.map Fragment.id ++ removedFragmentIds).any
      self.modifiedFragmentIds.contains = true) (rows : self.affectedRows = none) :
    self.checkDeleteUpdateOverlap updatedFragments removedFragmentIds otherVersion =
      .error (retryableConflictErr otherVersion) := by
  simp [checkDeleteUpdateOverlap, touched, rows]

/-- A concurrent delete or update that removed a fragment we modify and read is
a conflict. -/
theorem checkDeleteUpdateOverlap_removed {self : TransactionRebase}
    {updatedFragments : List Fragment} {removedFragmentIds : List Nat}
    {otherVersion fragmentId : Nat} (removed : fragmentId ∈ removedFragmentIds)
    (modified : fragmentId ∈ self.modifiedFragmentIds)
    (read : self.affectedRows = none ∨ fragmentId ∈ self.initialFragments) :
    ∃ failure, failure.IsConflict ∧
      self.checkDeleteUpdateOverlap updatedFragments removedFragmentIds otherVersion =
        .error failure := by
  have touched : (updatedFragments.map Fragment.id ++ removedFragmentIds).any
      self.modifiedFragmentIds.contains = true :=
    List.any_eq_true.mpr ⟨fragmentId, List.mem_append_right _ removed, by simpa using modified⟩
  rcases read with rows | kept
  · exact ⟨_, retryableConflictErr_isConflict otherVersion, checkDeleteUpdateOverlap_no_rows touched rows⟩
  cases rows : self.affectedRows with
  | none => exact ⟨_, retryableConflictErr_isConflict otherVersion, checkDeleteUpdateOverlap_no_rows touched rows⟩
  | some affected =>
    cases marked : markUpdatedFragments otherVersion self.initialFragments updatedFragments with
    | error failure =>
      refine ⟨failure, by rw [markUpdatedFragments_error marked]; trivial, ?_⟩
      simp [checkDeleteUpdateOverlap, touched, rows, marked]
    | ok initial =>
      have stillRead : fragmentId ∈ initial :=
        ((markUpdatedFragments_sameFragments marked).mem_iff fragmentId).mpr kept
      have found : removedFragmentIds.any (fun id => decide (id ∈ initial)) = true :=
        List.any_eq_true.mpr ⟨fragmentId, removed, by simpa using stillRead⟩
      refine ⟨_, retryableConflictErr_isConflict otherVersion, ?_⟩
      simp [checkDeleteUpdateOverlap, touched, rows, marked, found]

/-- A concurrent delete or update that changed the data files of a fragment we
modify and read is a conflict. -/
theorem checkDeleteUpdateOverlap_changed_files {self : TransactionRebase}
    {updatedFragments : List Fragment} {removedFragmentIds : List Nat} {otherVersion : Nat}
    {changed : Fragment} (member : changed ∈ updatedFragments)
    (modified : changed.id ∈ self.modifiedFragmentIds)
    (read : self.affectedRows = none ∨ ∃ fragment,
      (self.initialFragments.lookup changed.id).map Prod.fst = some fragment ∧
        fragment.files ≠ changed.files) :
    ∃ failure, failure.IsConflict ∧
      self.checkDeleteUpdateOverlap updatedFragments removedFragmentIds otherVersion =
        .error failure := by
  have touched : (updatedFragments.map Fragment.id ++ removedFragmentIds).any
      self.modifiedFragmentIds.contains = true :=
    List.any_eq_true.mpr ⟨changed.id, List.mem_append_left _ (List.mem_map_of_mem member),
      by simpa using modified⟩
  rcases read with rows | ⟨fragment, found, differs⟩
  · exact ⟨_, retryableConflictErr_isConflict otherVersion, checkDeleteUpdateOverlap_no_rows touched rows⟩
  cases rows : self.affectedRows with
  | none => exact ⟨_, retryableConflictErr_isConflict otherVersion, checkDeleteUpdateOverlap_no_rows touched rows⟩
  | some affected =>
    obtain ⟨failure, marked⟩ : ∃ failure,
        markUpdatedFragments otherVersion self.initialFragments updatedFragments = .error failure :=
      markUpdatedFragments_changed_files member found differs
    refine ⟨failure, by rw [markUpdatedFragments_error marked]; trivial, ?_⟩
    simp [checkDeleteUpdateOverlap, touched, rows, marked]

end TransactionRebase

/-- The concurrent operation removes fragment `fragmentId` or physically
rewrites it: a delete or update dropping it, a rewrite compacting it, or a
merge, which rewrites the whole fragment list. -/
def RemovesOrRewrites (operation : Operation) (fragmentId : Nat) : Prop :=
  match operation with
  | .delete _ deletedFragmentIds => fragmentId ∈ deletedFragmentIds
  | .update removedFragmentIds _ _ _ _ _ _ => fragmentId ∈ removedFragmentIds
  | .rewrite groups _ => fragmentId ∈ rewrittenFragmentIds groups
  | .merge _ => True
  | _ => False

namespace TransactionRebase

theorem checkDeleteTxn_lost_update {self : TransactionRebase} {other : Transaction}
    {otherVersion fragmentId : Nat} {updatedFragments : List Fragment} {deletedFragmentIds : List Nat}
    (own : self.transaction.operation = .delete updatedFragments deletedFragmentIds)
    (modified : fragmentId ∈ self.modifiedFragmentIds)
    (read : self.affectedRows = none ∨ fragmentId ∈ self.initialFragments)
    (removes : RemovesOrRewrites other.operation fragmentId) :
    ∃ failure, failure.IsConflict ∧ self.checkDeleteTxn other otherVersion = .error failure := by
  cases operation : other.operation
  all_goals simp only [RemovesOrRewrites, operation] at removes
  all_goals simp only [checkDeleteTxn, own, operation]
  case delete => exact checkDeleteUpdateOverlap_removed removes modified read
  case update => exact checkDeleteUpdateOverlap_removed removes modified read
  case rewrite => exact ⟨_, retryableConflictErr_isConflict _, conflictIfTouched_error removes modified⟩
  case merge => exact ⟨_, retryableConflictErr_isConflict _, rfl⟩

theorem keyFilterConflict_isConflict {env : ResolverEnv}
    {selfFilter otherFilter : Option KeyExistenceFilter} {otherVersion : Nat} {failure : Error}
    (rejected : keyFilterConflict env selfFilter otherFilter otherVersion = some failure) :
    failure.IsConflict := by
  unfold keyFilterConflict at rejected
  repeat' split at rejected
  all_goals first
    | (cases rejected; done)
    | (cases rejected; exact retryableConflictErr_isConflict otherVersion)

theorem updateKeyConflict_isConflict {env : ResolverEnv} {selfFilter : Option KeyExistenceFilter}
    {other : Transaction} {otherVersion : Nat} {failure : Error}
    (rejected : updateKeyConflict env selfFilter other otherVersion = some failure) :
    failure.IsConflict := by
  unfold updateKeyConflict at rejected
  split at rejected
  · exact keyFilterConflict_isConflict rejected
  · cases rejected

theorem checkUpdateTxn_lost_update {env : ResolverEnv} {self : TransactionRebase}
    {other : Transaction} {otherVersion fragmentId : Nat} {removedFragmentIds : List Nat}
    {updatedFragments newFragments : List Fragment} {fieldsModified : List Nat}
    {mergedGenerations : List MergedGeneration} {updateMode : Option UpdateMode}
    {insertedRowsFilter : Option KeyExistenceFilter}
    (own : self.transaction.operation = .update removedFragmentIds updatedFragments newFragments
      fieldsModified mergedGenerations updateMode insertedRowsFilter)
    (modified : fragmentId ∈ self.modifiedFragmentIds)
    (read : self.affectedRows = none ∨ fragmentId ∈ self.initialFragments)
    (removes : RemovesOrRewrites other.operation fragmentId) :
    ∃ failure, failure.IsConflict ∧ checkUpdateTxn env self other otherVersion = .error failure := by
  cases key : updateKeyConflict env insertedRowsFilter other otherVersion with
  | some failure =>
    exact ⟨failure, updateKeyConflict_isConflict key, by simp [checkUpdateTxn, own, key]⟩
  | none =>
    cases operation : other.operation
    all_goals simp only [RemovesOrRewrites, operation] at removes
    all_goals simp only [checkUpdateTxn, own, key, operation]
    case delete => exact checkDeleteUpdateOverlap_removed removes modified read
    case update => exact checkDeleteUpdateOverlap_removed removes modified read
    case rewrite =>
      exact ⟨_, retryableConflictErr_isConflict _, conflictIfTouched_error removes modified⟩
    case merge => exact ⟨_, retryableConflictErr_isConflict _, rfl⟩

theorem checkRewriteTxn_lost_update {self : TransactionRebase} {other : Transaction}
    {otherVersion fragmentId : Nat} {groups : List RewriteGroup}
    {fragReuseIndex : Option IndexMetadata}
    (own : self.transaction.operation = .rewrite groups fragReuseIndex)
    (modified : fragmentId ∈ self.modifiedFragmentIds)
    (removes : RemovesOrRewrites other.operation fragmentId) :
    ∃ failure, failure.IsConflict ∧ self.checkRewriteTxn other otherVersion = .error failure := by
  cases operation : other.operation
  all_goals simp only [RemovesOrRewrites, operation] at removes
  all_goals simp only [checkRewriteTxn, own, operation]
  case delete =>
    exact ⟨_, retryableConflictErr_isConflict _,
      conflictIfTouched_error (List.mem_append_right _ removes) modified⟩
  case update =>
    exact ⟨_, retryableConflictErr_isConflict _,
      conflictIfTouched_error (List.mem_append_right _ removes) modified⟩
  case rewrite otherGroups committedFri =>
    have touched : (rewrittenFragmentIds otherGroups).any self.modifiedFragmentIds.contains = true :=
      List.any_eq_true.mpr ⟨fragmentId, removes, by simpa using modified⟩
    exact ⟨_, retryableConflictErr_isConflict otherVersion, by simp [touched]⟩
  case merge => exact ⟨_, retryableConflictErr_isConflict _, rfl⟩

/-- The replacement loop against a concurrent update stops at a replaced
fragment the update removed, if no earlier replacement stopped it. -/
theorem checkReplacementsAgainstUpdate_removed {removedFragmentIds : List Nat}
    {updatedFragments newFragments : List Fragment} {fieldsModified : List Nat}
    {updateMode : Option UpdateMode} {otherVersion fragmentId : Nat}
    (removed : fragmentId ∈ removedFragmentIds) :
    ∀ {replacements : List DataReplacementGroup},
      fragmentId ∈ replacements.map DataReplacementGroup.fragmentId →
        ∃ failure, failure.IsConflict ∧
          checkReplacementsAgainstUpdate removedFragmentIds updatedFragments newFragments
            fieldsModified updateMode otherVersion replacements = .error failure := by
  intro replacements
  induction replacements with
  | nil =>
    intro listed
    simp at listed
  | cons replacement rest ih =>
    intro listed
    simp only [checkReplacementsAgainstUpdate]
    by_cases dropped : removedFragmentIds.contains replacement.fragmentId = true
    · exact ⟨.incompatibleTransaction (.targetRemoved replacement.fragmentId) otherVersion, trivial,
        by rw [if_pos dropped]⟩
    · have later : fragmentId ∈ rest.map DataReplacementGroup.fragmentId := by
        rcases List.mem_cons.mp listed with head | later
        · rw [head] at removed
          simp [removed] at dropped
        · exact later
      obtain ⟨failure, conflict, stopped⟩ := ih later
      simp only [dropped, Bool.false_eq_true, ↓reduceIte]
      split
      · exact ⟨failure, conflict, stopped⟩
      · split
        · exact ⟨_, retryableConflictErr_isConflict _, rfl⟩
        · exact ⟨failure, conflict, stopped⟩

theorem checkDataReplacementTxn_lost_update {self : TransactionRebase} {other : Transaction}
    {otherVersion fragmentId : Nat} {replacements : List DataReplacementGroup}
    (own : self.transaction.operation = .dataReplacement replacements)
    (modified : fragmentId ∈ replacements.map DataReplacementGroup.fragmentId)
    (removes : RemovesOrRewrites other.operation fragmentId) :
    ∃ failure, failure.IsConflict ∧
      self.checkDataReplacementTxn other otherVersion = .error failure := by
  obtain ⟨replacement, member, same⟩ := List.mem_map.mp modified
  cases operation : other.operation
  all_goals simp only [RemovesOrRewrites, operation] at removes
  all_goals simp only [checkDataReplacementTxn, own, operation]
  case delete updatedFragments deletedFragmentIds =>
    cases found : replacements.find? fun replacement =>
        deletedFragmentIds.contains replacement.fragmentId with
    | some first =>
      exact ⟨.incompatibleTransaction (.targetRemoved first.fragmentId) otherVersion, trivial, rfl⟩
    | none =>
      have skipped := List.find?_eq_none.mp found replacement member
      simp [same, removes] at skipped
  case update removedFragmentIds updatedFragments newFragments fieldsModified _ updateMode _ =>
    obtain ⟨failure, conflict, stopped⟩ : ∃ failure, failure.IsConflict ∧
        checkReplacementsAgainstUpdate removedFragmentIds updatedFragments newFragments
          fieldsModified updateMode otherVersion replacements = .error failure :=
      checkReplacementsAgainstUpdate_removed removes modified
    exact ⟨failure, conflict, by simp [stopped, Except.map]⟩
  case rewrite groups fragReuseIndex =>
    have touched : (replacements.any fun replacement =>
        (rewrittenFragmentIds groups).contains replacement.fragmentId) = true :=
      List.any_eq_true.mpr ⟨replacement, member, by simpa [same] using removes⟩
    exact ⟨_, retryableConflictErr_isConflict otherVersion, by rw [if_pos touched]⟩
  case merge => exact ⟨_, retryableConflictErr_isConflict _, rfl⟩

theorem checkDataOverlayTxn_lost_update {self : TransactionRebase} {other : Transaction}
    {otherVersion fragmentId : Nat} (modified : fragmentId ∈ self.modifiedFragmentIds)
    (removes : RemovesOrRewrites other.operation fragmentId) :
    ∃ failure, failure.IsConflict ∧ self.checkDataOverlayTxn other otherVersion = .error failure := by
  cases operation : other.operation
  all_goals simp only [RemovesOrRewrites, operation] at removes
  all_goals simp only [checkDataOverlayTxn, operation]
  case delete => exact ⟨_, retryableConflictErr_isConflict _, conflictIfTouched_error removes modified⟩
  case update removedFragmentIds _ _ _ _ _ _ =>
    have touched : removedFragmentIds.any self.modifiedFragmentIds.contains = true :=
      List.any_eq_true.mpr ⟨fragmentId, removes, by simpa using modified⟩
    exact ⟨_, retryableConflictErr_isConflict otherVersion, by simp [touched]⟩
  case rewrite => exact ⟨_, retryableConflictErr_isConflict _, conflictIfTouched_error removes modified⟩
  case merge => exact ⟨_, retryableConflictErr_isConflict _, rfl⟩

theorem checkMergeTxn_lost_update {self : TransactionRebase} {other : Transaction}
    {otherVersion fragmentId : Nat} (removes : RemovesOrRewrites other.operation fragmentId) :
    ∃ failure, failure.IsConflict ∧ self.checkMergeTxn other otherVersion = .error failure := by
  cases operation : other.operation
  all_goals simp only [RemovesOrRewrites, operation] at removes
  all_goals exact ⟨_, retryableConflictErr_isConflict otherVersion, by simp [checkMergeTxn, operation]⟩

/-- The step lemma of the lost-update guarantee: at any state whose modified ids
are the ones of its own operation, a concurrent removal or rewrite of a fragment
we modify and read is a conflict. -/
theorem checkTxn_lost_update {env : ResolverEnv} {self : TransactionRebase} {other : Transaction}
    {otherVersion fragmentId : Nat}
    (ownIds : self.modifiedFragmentIds = modifiedFragmentIdsOf self.transaction.operation)
    (modified : fragmentId ∈ self.modifiedFragmentIds)
    (read : self.affectedRows = none ∨ fragmentId ∈ self.initialFragments)
    (removes : RemovesOrRewrites other.operation fragmentId) :
    ∃ failure, failure.IsConflict ∧ checkTxn env self other otherVersion = .error failure := by
  have listed := modified
  rw [ownIds] at listed
  cases own : self.transaction.operation
  all_goals simp only [modifiedFragmentIdsOf, own, List.not_mem_nil] at listed
  all_goals simp only [checkTxn, own]
  case delete => exact checkDeleteTxn_lost_update own modified read removes
  case update => exact checkUpdateTxn_lost_update own modified read removes
  case rewrite => exact checkRewriteTxn_lost_update own modified removes
  case dataReplacement => exact checkDataReplacementTxn_lost_update own listed removes
  case dataOverlay => exact checkDataOverlayTxn_lost_update modified removes
  case merge => exact checkMergeTxn_lost_update removes

end TransactionRebase

/-- The operation is a delete or an update that lists `updated` among its
updated fragments. -/
def UpdatesFragment (operation : Operation) (updated : Fragment) : Prop :=
  match operation with
  | .delete updatedFragments _ => updated ∈ updatedFragments
  | .update _ updatedFragments _ _ _ _ _ => updated ∈ updatedFragments
  | _ => False

def IsDeleteOrUpdate : Operation → Prop
  | .delete .. | .update .. => True
  | _ => False

namespace TransactionRebase

/-- Between two deletes or updates, a concurrent change of the data files of a
fragment we modify and read is a conflict. -/
theorem checkTxn_changed_files {env : ResolverEnv} {self : TransactionRebase}
    {other : Transaction} {otherVersion : Nat} {changed : Fragment}
    (deleteOrUpdate : IsDeleteOrUpdate self.transaction.operation)
    (updates : UpdatesFragment other.operation changed)
    (modified : changed.id ∈ self.modifiedFragmentIds)
    (read : self.affectedRows = none ∨ ∃ fragment,
      (self.initialFragments.lookup changed.id).map Prod.fst = some fragment ∧
        fragment.files ≠ changed.files) :
    ∃ failure, failure.IsConflict ∧ checkTxn env self other otherVersion = .error failure := by
  cases own : self.transaction.operation
  all_goals simp only [IsDeleteOrUpdate, own] at deleteOrUpdate
  case delete =>
    cases operation : other.operation
    all_goals simp only [UpdatesFragment, operation] at updates
    all_goals simp only [checkTxn, checkDeleteTxn, own, operation]
    all_goals exact checkDeleteUpdateOverlap_changed_files updates modified read
  case update selfFilter =>
    simp only [checkTxn, own]
    cases key : updateKeyConflict env selfFilter other otherVersion with
    | some failure =>
      exact ⟨failure, updateKeyConflict_isConflict key, by simp [checkUpdateTxn, own, key]⟩
    | none =>
      cases operation : other.operation
      all_goals simp only [UpdatesFragment, operation] at updates
      all_goals simp only [checkUpdateTxn, own, key, operation]
      all_goals exact checkDeleteUpdateOverlap_changed_files updates modified read

/-- What every state the commit loop reaches from `try_new` knows about a
fragment we modify that exists at the read version. -/
theorem reaches_reads {env : ResolverEnv} {dataset : Dataset} {checkoutVersion : Nat → Dataset}
    {transaction : Transaction} {affectedRows : Option RowAddrTreeMap} {state : TransactionRebase}
    (reached : Reaches (checkStep env) (tryNew dataset checkoutVersion transaction affectedRows) state)
    {fragmentId : Nat} (modified : fragmentId ∈ modifiedFragmentIdsOf transaction.operation)
    (exists_read : ∃ fragment ∈ (dataset.atVersion checkoutVersion transaction.readVersion).fragments,
      fragment.id = fragmentId) :
    state.transaction = transaction ∧
      state.modifiedFragmentIds = modifiedFragmentIdsOf transaction.operation ∧
      (state.affectedRows = none ∨ fragmentId ∈ state.initialFragments) ∧
      FromReadVersion state.initialFragments
        (dataset.atVersion checkoutVersion transaction.readVersion).fragments := by
  have kept := rebased_of_reaches reached
  refine ⟨kept.transaction.trans (tryNew_transaction ..),
    kept.modified.trans (tryNew_modifiedFragmentIds ..), ?_,
    FromReadVersion.of_same kept.fragments
      (tryNew_fromReadVersion dataset checkoutVersion transaction affectedRows)⟩
  rw [kept.affectedRows, kept.fragments.mem_iff]
  exact tryNew_reads modified exists_read

/-- Lost-update safety: a fragment we modify that exists at the read version
cannot be removed or rewritten underneath us, and between deletes and updates
its data files cannot change underneath us, at any state of the commit loop. -/
theorem checkTxn_rejects_lost_update {env : ResolverEnv} {dataset : Dataset}
    {checkoutVersion : Nat → Dataset} {transaction : Transaction}
    {affectedRows : Option RowAddrTreeMap} {state : TransactionRebase}
    (reached : Reaches (checkStep env) (tryNew dataset checkoutVersion transaction affectedRows) state)
    {fragmentId : Nat}
    (modified : fragmentId ∈
      (tryNew dataset checkoutVersion transaction affectedRows).modifiedFragmentIds)
    (exists_read : ∃ fragment ∈ (dataset.atVersion checkoutVersion transaction.readVersion).fragments,
      fragment.id = fragmentId) :
    (∀ (other : Transaction) (otherVersion : Nat), RemovesOrRewrites other.operation fragmentId →
      ∃ failure, failure.IsConflict ∧ checkTxn env state other otherVersion = .error failure) ∧
    (IsDeleteOrUpdate transaction.operation →
      ∀ (other : Transaction) (otherVersion : Nat) (changed : Fragment),
        UpdatesFragment other.operation changed → changed.id = fragmentId →
        (∀ fragment ∈ (dataset.atVersion checkoutVersion transaction.readVersion).fragments,
          fragment.id = fragmentId → fragment.files ≠ changed.files) →
        ∃ failure, failure.IsConflict ∧ checkTxn env state other otherVersion = .error failure) := by
  rw [tryNew_modifiedFragmentIds] at modified
  obtain ⟨ownTransaction, ownIds, read, fromRead⟩ := reaches_reads reached modified exists_read
  have stateModified : fragmentId ∈ state.modifiedFragmentIds := ownIds ▸ modified
  constructor
  · intro other otherVersion removes
    exact checkTxn_lost_update (ownIds.trans (by rw [ownTransaction])) stateModified read removes
  · intro deleteOrUpdate other otherVersion changed updates sameId differs
    subst sameId
    apply checkTxn_changed_files (ownTransaction ▸ deleteOrUpdate) updates stateModified
    rcases read with rows | kept
    · exact .inl rows
    · right
      obtain ⟨entry, found⟩ := Option.isSome_iff_exists.mp (AList.lookup_isSome.mpr kept)
      have origin := fromRead changed.id entry.1 (by rw [found]; rfl)
      exact ⟨entry.1, by rw [found]; rfl, differs entry.1 origin.1 origin.2⟩

theorem checkTxn_rejects_lost_update_removed_fragment :
    let dataset : Dataset := ⟨1, [⟨1, [], none⟩]⟩
    let transaction : Transaction := ⟨1, .delete [] [1]⟩
    let env : ResolverEnv := ⟨fun _ _ => none, fun _ => .ok []⟩
    let start := tryNew dataset (fun _ => dataset) transaction none
    Reaches (checkStep env) start start ∧ 1 ∈ start.modifiedFragmentIds ∧
      (∃ fragment ∈ (dataset.atVersion (fun _ => dataset) transaction.readVersion).fragments,
        fragment.id = 1) ∧
      ((∀ (other : Transaction) (otherVersion : Nat), RemovesOrRewrites other.operation 1 →
        ∃ failure, failure.IsConflict ∧ checkTxn env start other otherVersion = .error failure) ∧
      (IsDeleteOrUpdate transaction.operation →
        ∀ (other : Transaction) (otherVersion : Nat) (changed : Fragment),
          UpdatesFragment other.operation changed → changed.id = 1 →
          (∀ fragment ∈ (dataset.atVersion (fun _ => dataset) transaction.readVersion).fragments,
            fragment.id = 1 → fragment.files ≠ changed.files) →
          ∃ failure, failure.IsConflict ∧ checkTxn env start other otherVersion = .error failure)) :=
  ⟨Reaches.refl _, by decide, ⟨⟨1, [], none⟩, by decide, rfl⟩,
    checkTxn_rejects_lost_update (Reaches.refl _) (by decide) ⟨⟨1, [], none⟩, by decide, rfl⟩⟩

end TransactionRebase

end Lance.Commit
