import Lance.Commit.LostUpdate
import Lance.Commit.OverlayOrder
import Lance.Select.RowAddrSet

/-! The row-level rebase of a delete or an update over the deletes and updates
committed since its read version. Each check against one of them flags the
fragments we read whose deletion file it changed, and the flags pile up over
the whole run of checks; `finish_delete_update` then reads the current
deletion vectors of the flagged fragments, fails when a row we delete is
already deleted there, and otherwise writes deletion vectors that hold both,
removing a fragment left without a row. -/

namespace Lance.Commit

open Lance.Select Lance.Library

def updatedFragmentsOf : Operation → List Fragment
  | .delete updatedFragments _ => updatedFragments
  | .update _ updatedFragments _ _ _ _ _ => updatedFragments
  | _ => []

def removedFragmentIdsOf : Operation → List Nat
  | .delete _ deletedFragmentIds => deletedFragmentIds
  | .update removedFragmentIds _ _ _ _ _ _ => removedFragmentIds
  | _ => []

namespace TransactionRebase

/-! ## The flags over a run of checks -/

/-- Whether one of these updated fragments gives the fragment read under
`fragmentId` another deletion file. -/
def changesDeletionFile (updated : List Fragment) (fragmentId : Nat) (read : Fragment) : Bool :=
  updated.any fun fragment => fragment.id == fragmentId && decide (fragment.deletionFile ≠ read.deletionFile)

def KeysModified (self : TransactionRebase) : Prop :=
  ∀ fragmentId ∈ self.initialFragments, fragmentId ∈ self.modifiedFragmentIds

theorem lookup_markUpdatedFragments {otherVersion : Nat} (fragmentId : Nat) :
    ∀ {updated : List Fragment} {initial result : FragmentMap},
      markUpdatedFragments otherVersion initial updated = .ok result →
        result.lookup fragmentId = (initial.lookup fragmentId).map fun entry =>
          (entry.1, entry.2 || changesDeletionFile updated fragmentId entry.1) := by
  intro updated
  induction updated with
  | nil =>
    intro initial result marked
    cases marked
    cases initial.lookup fragmentId <;> simp [changesDeletionFile]
  | cons fragment rest ih =>
    intro initial result marked
    simp only [markUpdatedFragments] at marked
    split at marked
    · rename_i read flag found
      split at marked
      · cases marked
      · rw [ih marked]
        by_cases same : fragmentId = fragment.id
        · subst same
          simp [AList.lookup_insert, found, changesDeletionFile, Bool.or_assoc]
        · have differs : (fragment.id == fragmentId) = false := by simpa using Ne.symm same
          simp [AList.lookup_insert_ne same, changesDeletionFile, differs]
    · rename_i missing
      rw [ih marked]
      by_cases same : fragmentId = fragment.id
      · subst same
        simp [missing]
      · have differs : (fragment.id == fragmentId) = false := by simpa using Ne.symm same
        simp [changesDeletionFile, differs]

/-- A check against a concurrent delete or update flags exactly the fragments
we read whose deletion file its updated fragments change. -/
theorem lookup_checkDeleteUpdateOverlap {self next : TransactionRebase} {updated : List Fragment}
    {removed : List Nat} {otherVersion : Nat} (keys : KeysModified self)
    (checked : self.checkDeleteUpdateOverlap updated removed otherVersion = .ok next) (fragmentId : Nat) :
    next.initialFragments.lookup fragmentId = (self.initialFragments.lookup fragmentId).map fun entry =>
      (entry.1, entry.2 || changesDeletionFile updated fragmentId entry.1) := by
  unfold checkDeleteUpdateOverlap at checked
  split at checked
  · -- no fragment of ours is touched, so none of ours is updated
    rename_i untouched
    cases checked
    cases found : self.initialFragments.lookup fragmentId with
    | none => rfl
    | some entry =>
      have unchanged : changesDeletionFile updated fragmentId entry.1 = false := by
        rw [changesDeletionFile, List.any_eq_false]
        rintro fragment member changes
        have sameId : fragment.id = fragmentId := by simpa using (Bool.and_eq_true _ _).mp changes |>.1
        have ours := keys fragmentId (AList.lookup_isSome.mp (by rw [found]; rfl))
        have touched : (updated.map Fragment.id ++ removed).any self.modifiedFragmentIds.contains = true :=
          List.any_eq_true.mpr ⟨fragmentId, List.mem_append_left _ (List.mem_map.mpr ⟨fragment, member, sameId⟩),
            by simpa using ours⟩
        simp [touched] at untouched
      simp [unchanged]
  · split at checked
    · cases checked
    · split at checked
      · cases checked
      · rename_i marked _ markedOk
        split at checked
        · cases checked
        · cases checked
          exact lookup_markUpdatedFragments fragmentId markedOk

theorem lookup_of_no_updates (initial : FragmentMap) (fragmentId : Nat) :
    initial.lookup fragmentId = (initial.lookup fragmentId).map fun entry =>
      (entry.1, entry.2 || changesDeletionFile [] fragmentId entry.1) := by
  cases initial.lookup fragmentId <;> simp [changesDeletionFile]

/-- The step lemma of the flags: checked against a delete or an update, a
delete or update of ours flags the fragments whose deletion file it changes,
and against anything else flags nothing. -/
theorem lookup_checkTxn {env : ResolverEnv} {self next : TransactionRebase} {other : Transaction}
    {otherVersion : Nat} (own : IsDeleteOrUpdate self.transaction.operation) (keys : KeysModified self)
    (checked : checkTxn env self other otherVersion = .ok next) (fragmentId : Nat) :
    next.initialFragments.lookup fragmentId = (self.initialFragments.lookup fragmentId).map fun entry =>
      (entry.1, entry.2 || changesDeletionFile (updatedFragmentsOf other.operation) fragmentId entry.1) := by
  cases ownOperation : self.transaction.operation
  all_goals simp only [IsDeleteOrUpdate, ownOperation] at own
  case delete =>
    simp only [checkTxn, ownOperation, checkDeleteTxn] at checked
    cases operation : other.operation
    all_goals simp only [operation] at checked
    all_goals first
      | (cases checked; done)
      | (cases checked; exact lookup_of_no_updates _ _)
      | (rw [conflictIfTouched_ok checked]; exact lookup_of_no_updates _ _)
      | exact lookup_checkDeleteUpdateOverlap keys checked fragmentId
  case update =>
    simp only [checkTxn, ownOperation, checkUpdateTxn] at checked
    split at checked
    · cases checked
    · cases operation : other.operation
      all_goals simp only [operation] at checked
      all_goals first
        | (cases checked; done)
        | (cases checked; exact lookup_of_no_updates _ _)
        | (rw [conflictIfTouched_ok checked]; exact lookup_of_no_updates _ _)
        | (rw [map_const_ok checked]; exact lookup_of_no_updates _ _)
        | exact lookup_checkDeleteUpdateOverlap keys checked fragmentId
        | (split at checked
           · cases checked; exact lookup_of_no_updates _ _
           · rw [map_const_ok checked]; exact lookup_of_no_updates _ _)
        | (split at checked
           · cases checked
           · cases checked; exact lookup_of_no_updates _ _)

/-- The run lemma of the flags: after the checks against every transaction
committed since the read version, a fragment we read is flagged when it was
at the start or when one of them changed its deletion file. -/
theorem lookup_checkAll {env : ResolverEnv} (fragmentId : Nat) :
    ∀ {others : List (Nat × Transaction)} {self state : TransactionRebase},
      IsDeleteOrUpdate self.transaction.operation → KeysModified self →
      checkAll env self others = .ok state →
        state.initialFragments.lookup fragmentId = (self.initialFragments.lookup fragmentId).map fun entry =>
          (entry.1, entry.2 || others.any fun other =>
            changesDeletionFile (updatedFragmentsOf other.2.operation) fragmentId entry.1) := by
  intro others
  induction others with
  | nil =>
    intro self state _ _ ran
    cases ran
    cases self.initialFragments.lookup fragmentId <;> simp
  | cons other rest ih =>
    intro self state own keys ran
    obtain ⟨next, stepped, later⟩ := foldlM_ok_cons.mp ran
    have kept := checkTxn_rebased stepped
    have nextKeys : KeysModified next := by
      intro id member
      rw [kept.modified]
      exact keys id ((kept.fragments.mem_iff id).mp member)
    rw [ih (kept.transaction ▸ own) nextKeys later, lookup_checkTxn own keys stepped]
    cases self.initialFragments.lookup fragmentId <;> simp [Bool.or_assoc]

end TransactionRebase

end Lance.Commit
