import Lance.Commit.ConflictResolver

/-! What a successful check may change in the rebase state. `check_txn` only
marks fragments as needing a rewrite or a row check and records the
fragment-reuse indices and MemWAL generations it must rebase onto; the
transaction, the modified fragment ids, the affected rows and the fragments
read at the read version stay as `try_new` left them, over any run of checks. -/

namespace Lance.Commit

open Lance.Select Lance.Library

namespace TransactionRebase

/-- Two fragment maps hold the same fragments under the same ids; only the
flags beside them may differ. -/
def SameFragments (left right : FragmentMap) : Prop :=
  ∀ id, (left.lookup id).map Prod.fst = (right.lookup id).map Prod.fst

theorem SameFragments.refl (map : FragmentMap) : SameFragments map map := fun _ => rfl

theorem SameFragments.trans {first second third : FragmentMap}
    (left : SameFragments first second) (right : SameFragments second third) :
    SameFragments first third := fun id => (left id).trans (right id)

theorem SameFragments.mem_iff {left right : FragmentMap} (same : SameFragments left right)
    (id : Nat) : id ∈ left ↔ id ∈ right := by
  have lookups := same id
  rw [← AList.lookup_isSome, ← AList.lookup_isSome]
  cases found : left.lookup id <;> cases other : right.lookup id <;> simp_all

theorem sameFragments_insert {map : FragmentMap} {id : Nat} {fragment : Fragment}
    {flag flag' : Bool} (found : map.lookup id = some (fragment, flag)) :
    SameFragments (map.insert id (fragment, flag')) map := by
  intro key
  by_cases same : key = id
  · subst same
    simp [AList.lookup_insert, found]
  · simp [AList.lookup_insert_ne same]


/-! ## The state `try_new` builds -/

/-- Every fragment a map holds under an id is a fragment of `readFragments`
with that id. -/
def FromReadVersion (map : FragmentMap) (readFragments : List Fragment) : Prop :=
  ∀ id fragment, (map.lookup id).map Prod.fst = some fragment →
    fragment ∈ readFragments ∧ fragment.id = id

theorem FromReadVersion.of_same {map other : FragmentMap} {readFragments : List Fragment}
    (same : SameFragments map other) (read : FromReadVersion other readFragments) :
    FromReadVersion map readFragments := by
  intro id fragment found
  rw [same id] at found
  exact read id fragment found

theorem mem_foldl_insert :
    ∀ (fragments : List Fragment) (acc : FragmentMap) (id : Nat),
      id ∈ acc ∨ id ∈ fragments.map Fragment.id →
        id ∈ fragments.foldl (fun map fragment => map.insert fragment.id (fragment, false)) acc := by
  intro fragments
  induction fragments with
  | nil =>
    intro acc id member
    simpa using member
  | cons fragment rest ih =>
    intro acc id member
    apply ih
    rcases member with kept | listed
    · exact .inl ((AList.mem_insert _).mpr (.inr kept))
    · rcases List.mem_cons.mp listed with head | later
      · exact .inl ((AList.mem_insert _).mpr (.inl head))
      · exact .inr later

theorem lookup_foldl_insert :
    ∀ (fragments : List Fragment) (acc : FragmentMap) (id : Nat) (entry : Fragment × Bool),
      (fragments.foldl (fun map fragment => map.insert fragment.id (fragment, false)) acc).lookup id =
          some entry →
        acc.lookup id = some entry ∨ (entry.1 ∈ fragments ∧ entry.1.id = id) := by
  intro fragments
  induction fragments with
  | nil =>
    intro acc id entry found
    exact .inl found
  | cons fragment rest ih =>
    intro acc id entry found
    rcases ih _ id entry found with earlier | later
    · by_cases same : id = fragment.id
      · subst same
        rw [AList.lookup_insert] at earlier
        cases earlier
        exact .inr ⟨List.mem_cons_self, rfl⟩
      · rw [AList.lookup_insert_ne same] at earlier
        exact .inl earlier
    · exact .inr ⟨List.mem_cons_of_mem _ later.1, later.2⟩

theorem collectFragments_fromReadVersion {fragments readFragments : List Fragment}
    (within : fragments ⊆ readFragments) : FromReadVersion (collectFragments fragments) readFragments := by
  intro id fragment found
  obtain ⟨entry, present, same⟩ := Option.map_eq_some_iff.mp found
  rcases lookup_foldl_insert fragments ∅ id entry present with empty | listed
  · simp at empty
  · subst same
    exact ⟨within listed.1, listed.2⟩

theorem initialFragmentsForRebase_fromReadVersion (dataset : Dataset)
    (checkoutVersion : Nat → Dataset) (transaction : Transaction) (modified : List Nat) :
    FromReadVersion (initialFragmentsForRebase dataset checkoutVersion transaction modified)
      (dataset.atVersion checkoutVersion transaction.readVersion).fragments := by
  unfold initialFragmentsForRebase
  split
  · intro id fragment found
    simp at found
  · exact collectFragments_fromReadVersion (List.filter_subset_self _)

theorem mem_initialFragmentsForRebase {dataset : Dataset} {checkoutVersion : Nat → Dataset}
    {transaction : Transaction} {modified : List Nat} {fragmentId : Nat}
    (listed : fragmentId ∈ modified)
    (exists_read : ∃ fragment ∈ (dataset.atVersion checkoutVersion transaction.readVersion).fragments,
      fragment.id = fragmentId) :
    fragmentId ∈ initialFragmentsForRebase dataset checkoutVersion transaction modified := by
  obtain ⟨fragment, read, same⟩ := exists_read
  have nonempty : modified.isEmpty = false := by
    cases modified with
    | nil => simp at listed
    | cons _ _ => rfl
  simp only [initialFragmentsForRebase, nonempty, Bool.false_eq_true, ↓reduceIte]
  apply mem_foldl_insert
  right
  refine List.mem_map.mpr ⟨fragment, List.mem_filter.mpr ⟨read, ?_⟩, same⟩
  simpa [same] using listed

theorem tryNew_transaction (dataset : Dataset) (checkoutVersion : Nat → Dataset)
    (transaction : Transaction) (affectedRows : Option RowAddrTreeMap) :
    (tryNew dataset checkoutVersion transaction affectedRows).transaction = transaction := by
  unfold tryNew
  dsimp only
  split
  all_goals first
    | rfl
    | (split <;> rfl)

theorem tryNew_modifiedFragmentIds (dataset : Dataset) (checkoutVersion : Nat → Dataset)
    (transaction : Transaction) (affectedRows : Option RowAddrTreeMap) :
    (tryNew dataset checkoutVersion transaction affectedRows).modifiedFragmentIds =
      modifiedFragmentIdsOf transaction.operation := by
  unfold tryNew
  dsimp only
  split
  all_goals first
    | rfl
    | (split <;> rfl)
    | (rename_i notDelete notUpdate notRewrite notReplacement notOverlay notMerge
       show [] = _
       cases operation : transaction.operation with
       | delete _ _ => exact absurd operation (notDelete _ _)
       | update _ _ _ _ _ _ _ => exact absurd operation (notUpdate _ _ _ _ _ _ _)
       | rewrite _ _ => exact absurd operation (notRewrite _ _)
       | dataReplacement _ => exact absurd operation (notReplacement _)
       | dataOverlay _ => exact absurd operation (notOverlay _)
       | merge _ => exact absurd operation (notMerge _)
       | _ => rfl)

theorem tryNew_fromReadVersion (dataset : Dataset) (checkoutVersion : Nat → Dataset)
    (transaction : Transaction) (affectedRows : Option RowAddrTreeMap) :
    FromReadVersion (tryNew dataset checkoutVersion transaction affectedRows).initialFragments
      (dataset.atVersion checkoutVersion transaction.readVersion).fragments := by
  have empty : FromReadVersion ∅ (dataset.atVersion checkoutVersion transaction.readVersion).fragments := by
    intro id fragment found
    simp at found
  have read := initialFragmentsForRebase_fromReadVersion dataset checkoutVersion transaction
    (modifiedFragmentIdsOf transaction.operation)
  unfold tryNew
  dsimp only
  split
  all_goals first
    | exact empty
    | exact read
    | (split
       · exact empty
       · exact read)

/-- A fragment we modify that exists at the read version is read by `try_new`,
unless the affected rows were dropped. -/
theorem tryNew_reads {dataset : Dataset} {checkoutVersion : Nat → Dataset}
    {transaction : Transaction} {affectedRows : Option RowAddrTreeMap} {fragmentId : Nat}
    (modified : fragmentId ∈ modifiedFragmentIdsOf transaction.operation)
    (exists_read : ∃ fragment ∈ (dataset.atVersion checkoutVersion transaction.readVersion).fragments,
      fragment.id = fragmentId) :
    (tryNew dataset checkoutVersion transaction affectedRows).affectedRows = none ∨
      fragmentId ∈ (tryNew dataset checkoutVersion transaction affectedRows).initialFragments := by
  have read := mem_initialFragmentsForRebase modified exists_read
  cases operation : transaction.operation
  all_goals simp only [tryNew, operation] at read ⊢
  all_goals first
    | exact .inr read
    | (split
       · exact .inl rfl
       · exact .inr read)

/-! ## What a successful check keeps -/

theorem markUpdatedFragments_sameFragments {otherVersion : Nat} :
    ∀ {updatedFragments : List Fragment} {initial result : FragmentMap},
      markUpdatedFragments otherVersion initial updatedFragments = .ok result →
        SameFragments result initial := by
  intro updatedFragments
  induction updatedFragments with
  | nil =>
    intro initial result marked
    cases marked
    exact SameFragments.refl _
  | cons updated rest ih =>
    intro initial result marked
    simp only [markUpdatedFragments] at marked
    split at marked
    · rename_i fragment needsRewrite found
      split at marked
      · cases marked
      · exact (ih marked).trans (sameFragments_insert found)
    · exact ih marked


/-- What a successful check keeps: everything but the fragment flags and the
recorded indices and generations. -/
structure Rebased (before after : TransactionRebase) : Prop where
  transaction : after.transaction = before.transaction
  modified : after.modifiedFragmentIds = before.modifiedFragmentIds
  affectedRows : after.affectedRows = before.affectedRows
  fragments : SameFragments after.initialFragments before.initialFragments

theorem Rebased.refl (state : TransactionRebase) : Rebased state state :=
  ⟨rfl, rfl, rfl, SameFragments.refl _⟩

theorem Rebased.trans {first second third : TransactionRebase}
    (left : Rebased first second) (right : Rebased second third) : Rebased first third :=
  ⟨right.transaction.trans left.transaction, right.modified.trans left.modified,
    right.affectedRows.trans left.affectedRows, right.fragments.trans left.fragments⟩

theorem conflictIfTouched_ok {self after : TransactionRebase} {ids : List Nat} {otherVersion : Nat}
    (checked : self.conflictIfTouched ids otherVersion = .ok after) : after = self := by
  unfold conflictIfTouched at checked
  split at checked
  · cases checked
  · cases checked
    rfl

theorem checkDeleteUpdateOverlap_rebased {self after : TransactionRebase}
    {updatedFragments : List Fragment} {removedFragmentIds : List Nat} {otherVersion : Nat}
    (checked : self.checkDeleteUpdateOverlap updatedFragments removedFragmentIds otherVersion =
      .ok after) : Rebased self after := by
  unfold checkDeleteUpdateOverlap at checked
  split at checked
  · cases checked
    exact Rebased.refl _
  · split at checked
    · cases checked
    · split at checked
      · cases checked
      · rename_i initial marked
        split at checked
        · cases checked
        · cases checked
          exact ⟨rfl, rfl, rfl, markUpdatedFragments_sameFragments marked⟩

theorem map_const_ok {α : Type} {x : Except Error α} {self after : TransactionRebase}
    (mapped : (x.map fun _ => self) = .ok after) : after = self := by
  cases x with
  | error failure => cases mapped
  | ok value =>
    cases mapped
    rfl

theorem checkDeleteTxn_rebased {self after : TransactionRebase} {other : Transaction}
    {otherVersion : Nat} (checked : self.checkDeleteTxn other otherVersion = .ok after) :
    Rebased self after := by
  unfold checkDeleteTxn at checked
  split at checked
  · split at checked
    all_goals first
      | (cases checked; done)
      | (cases checked; exact Rebased.refl _)
      | (rw [conflictIfTouched_ok checked]; exact Rebased.refl _)
      | exact checkDeleteUpdateOverlap_rebased checked
  · cases checked


theorem checkIndexedRewrite_ok {self after : TransactionRebase} {newIndices : List IndexMetadata}
    {groups : List RewriteGroup} {otherVersion : Nat}
    (checked : self.checkIndexedRewrite newIndices groups otherVersion = .ok after) :
    after = self := by
  unfold checkIndexedRewrite at checked
  split at checked
  · cases checked
  · split at checked
    · cases checked
    · cases checked
      rfl

theorem markRowCheck_sameFragments :
    ∀ (updatedFragments : List Fragment) (initial : FragmentMap),
      SameFragments (markRowCheck initial updatedFragments) initial := by
  intro updatedFragments
  induction updatedFragments with
  | nil => exact fun initial => SameFragments.refl initial
  | cons updated rest ih =>
    intro initial
    simp only [markRowCheck]
    split
    · rename_i fragment flag found
      exact (ih _).trans (sameFragments_insert found)
    · exact ih initial

theorem checkUpdateTxn_rebased {env : ResolverEnv} {self after : TransactionRebase}
    {other : Transaction} {otherVersion : Nat}
    (checked : checkUpdateTxn env self other otherVersion = .ok after) : Rebased self after := by
  unfold checkUpdateTxn at checked
  split at checked
  · split at checked
    · cases checked
    · split at checked
      all_goals first
        | (cases checked; done)
        | (cases checked; exact Rebased.refl _)
        | (rw [conflictIfTouched_ok checked]; exact Rebased.refl _)
        | (rw [map_const_ok checked]; exact Rebased.refl _)
        | exact checkDeleteUpdateOverlap_rebased checked
        | (split at checked
           · cases checked; exact Rebased.refl _
           · rw [map_const_ok checked]; exact Rebased.refl _)
        | (split at checked
           · cases checked
           · cases checked; exact Rebased.refl _)
  · cases checked

theorem checkCreateIndexTxn_rebased {self after : TransactionRebase} {other : Transaction}
    {otherVersion : Nat} (checked : self.checkCreateIndexTxn other otherVersion = .ok after) :
    Rebased self after := by
  unfold checkCreateIndexTxn at checked
  repeat' split at checked
  all_goals first
    | (cases checked; done)
    | (cases checked; exact ⟨rfl, rfl, rfl, SameFragments.refl _⟩)
    | (rw [checkIndexedRewrite_ok checked]; exact Rebased.refl _)

theorem checkRewriteTxn_rebased {self after : TransactionRebase} {other : Transaction}
    {otherVersion : Nat} (checked : self.checkRewriteTxn other otherVersion = .ok after) :
    Rebased self after := by
  unfold checkRewriteTxn at checked
  repeat' split at checked
  all_goals first
    | (cases checked; done)
    | (cases checked; exact ⟨rfl, rfl, rfl, SameFragments.refl _⟩)
    | (rw [conflictIfTouched_ok checked]; exact Rebased.refl _)
    | (rw [checkIndexedRewrite_ok checked]; exact Rebased.refl _)

theorem ok_self_rebased {self after : TransactionRebase}
    (same : after = self) : Rebased self after := by
  subst same
  exact Rebased.refl _

theorem checkOverwriteTxn_rebased {self after : TransactionRebase} {other : Transaction}
    {otherVersion : Nat} (checked : self.checkOverwriteTxn other otherVersion = .ok after) :
    Rebased self after := by
  unfold checkOverwriteTxn at checked
  repeat' split at checked
  all_goals first
    | (cases checked; done)
    | (cases checked; exact Rebased.refl _)

theorem checkAppendTxn_rebased {self after : TransactionRebase} {other : Transaction}
    {otherVersion : Nat} (checked : self.checkAppendTxn other otherVersion = .ok after) :
    Rebased self after := by
  unfold checkAppendTxn at checked
  split at checked
  all_goals first
    | (cases checked; done)
    | (cases checked; exact Rebased.refl _)

theorem checkDataReplacementTxn_rebased {self after : TransactionRebase} {other : Transaction}
    {otherVersion : Nat} (checked : self.checkDataReplacementTxn other otherVersion = .ok after) :
    Rebased self after := by
  unfold checkDataReplacementTxn at checked
  repeat' split at checked
  all_goals first
    | (cases checked; done)
    | (cases checked; exact Rebased.refl _)
    | exact ok_self_rebased (map_const_ok checked)

theorem checkDataOverlayTxn_rebased {self after : TransactionRebase} {other : Transaction}
    {otherVersion : Nat} (checked : self.checkDataOverlayTxn other otherVersion = .ok after) :
    Rebased self after := by
  unfold checkDataOverlayTxn at checked
  repeat' split at checked
  all_goals first
    | (cases checked; done)
    | (cases checked; exact Rebased.refl _)
    | exact ok_self_rebased (conflictIfTouched_ok checked)
    | (cases checked; exact ⟨rfl, rfl, rfl, markRowCheck_sameFragments _ _⟩)

theorem checkMergeTxn_rebased {self after : TransactionRebase} {other : Transaction}
    {otherVersion : Nat} (checked : self.checkMergeTxn other otherVersion = .ok after) :
    Rebased self after := by
  unfold checkMergeTxn at checked
  split at checked
  all_goals first
    | (cases checked; done)
    | (cases checked; exact Rebased.refl _)

theorem checkRestoreTxn_ok {self after : TransactionRebase} {other : Transaction}
    {otherVersion : Nat} (checked : self.checkRestoreTxn other otherVersion = .ok after) :
    after = self := by
  unfold checkRestoreTxn at checked
  split at checked
  all_goals first
    | (cases checked; done)
    | (cases checked; rfl)

theorem checkReserveFragmentsTxn_ok {self after : TransactionRebase} {other : Transaction}
    {otherVersion : Nat} (checked : self.checkReserveFragmentsTxn other otherVersion = .ok after) :
    after = self := by
  unfold checkReserveFragmentsTxn at checked
  split at checked
  all_goals first
    | (cases checked; done)
    | (cases checked; rfl)

theorem checkProjectTxn_ok {self after : TransactionRebase} {other : Transaction}
    {otherVersion : Nat} (checked : self.checkProjectTxn other otherVersion = .ok after) :
    after = self := by
  unfold checkProjectTxn at checked
  repeat' split at checked
  all_goals first
    | (cases checked; done)
    | (cases checked; rfl)

theorem checkUpdateConfigTxn_ok {self after : TransactionRebase} {other : Transaction}
    {otherVersion : Nat} (checked : self.checkUpdateConfigTxn other otherVersion = .ok after) :
    after = self := by
  unfold checkUpdateConfigTxn at checked
  repeat' split at checked
  all_goals first
    | (cases checked; done)
    | (cases checked; rfl)

theorem checkUpdateMemWalStateTxn_ok {env : ResolverEnv} {self after : TransactionRebase}
    {other : Transaction} {otherVersion : Nat}
    (checked : checkUpdateMemWalStateTxn env self other otherVersion = .ok after) :
    after = self := by
  unfold checkUpdateMemWalStateTxn at checked
  repeat' split at checked
  all_goals first
    | (cases checked; done)
    | (cases checked; rfl)
    | exact map_const_ok checked

theorem checkAddBasesTxn_ok {self after : TransactionRebase} {other : Transaction}
    {otherVersion : Nat} (checked : self.checkAddBasesTxn other otherVersion = .ok after) :
    after = self := by
  unfold checkAddBasesTxn at checked
  repeat' split at checked
  all_goals first
    | (cases checked; done)
    | (cases checked; rfl)

/-- The step lemma: a successful `check_txn` keeps what `try_new` fixed. -/
theorem checkTxn_rebased {env : ResolverEnv} {self after : TransactionRebase}
    {other : Transaction} {otherVersion : Nat}
    (checked : checkTxn env self other otherVersion = .ok after) : Rebased self after := by
  unfold checkTxn at checked
  split at checked
  · exact checkDeleteTxn_rebased checked
  · exact checkUpdateTxn_rebased checked
  · exact checkCreateIndexTxn_rebased checked
  · exact checkRewriteTxn_rebased checked
  · exact checkOverwriteTxn_rebased checked
  · exact checkAppendTxn_rebased checked
  · exact checkDataReplacementTxn_rebased checked
  · exact checkDataOverlayTxn_rebased checked
  · exact checkMergeTxn_rebased checked
  · exact ok_self_rebased (checkRestoreTxn_ok checked)
  · exact ok_self_rebased (checkReserveFragmentsTxn_ok checked)
  · exact ok_self_rebased (checkProjectTxn_ok checked)
  · exact ok_self_rebased (checkUpdateConfigTxn_ok checked)
  · exact ok_self_rebased (checkUpdateMemWalStateTxn_ok checked)
  · cases checked
    exact Rebased.refl _
  · exact ok_self_rebased (checkAddBasesTxn_ok checked)

theorem rebased_of_reaches {env : ResolverEnv} {start state : TransactionRebase}
    (reached : Reaches (checkStep env) start state) : Rebased start state := by
  apply Reaches.invariant (fun state => Rebased start state) _ (Rebased.refl start) reached
  intro state committed next kept stepped
  exact kept.trans (checkTxn_rebased stepped)

end TransactionRebase

end Lance.Commit
