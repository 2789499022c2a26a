import Lance.Commit.ConflictResolver

/-! Two transactions committed concurrently are checked in the order they
commit: the one committed second is rebased over the first by `check_txn`.
Here the checks are compared across the two orders.

A rewrite that defers its index remap (it carries a fragment-reuse index)
and a new regular index clash when a rewrite group mixes fragments the index
covers with fragments it does not. `check_rewrite_txn` rejects the rewrite in
that case, but `check_create_index_txn` accepts the index after such a
rewrite without looking at the groups.

Merged MemWAL generations are compared shard by shard in
`check_merged_generations_conflict`, which returns at the first shard both
lists name. -/

namespace Lance.Commit

open Lance.Select

namespace TransactionRebase

/-! ### The fragment-reuse straddle check -/

def IsRegularIndex (index : IndexMetadata) : Prop :=
  index.name ≠ fragReuseIndexName ∧ index.name ≠ memWalIndexName

theorem find?_fragReuse_eq_none {newIndices : List IndexMetadata}
    (regular : ∀ index ∈ newIndices, IsRegularIndex index) :
    newIndices.find? (·.name == fragReuseIndexName) = none := by
  rw [List.find?_eq_none]
  intro index member
  simpa using (regular index member).1

/-- Committed second, a rewrite with a deferred remap is rejected when one of
its groups straddles the fragments of a new regular index. -/
theorem checkTxn_rewrite_after_straddled_index (env : ResolverEnv) {self : TransactionRebase}
    {groups : List RewriteGroup} {fri : IndexMetadata}
    (rewrite : self.transaction.operation = .rewrite groups (some fri))
    {other : Transaction} {newIndices removedIndices : List IndexMetadata}
    (create : other.operation = .createIndex newIndices removedIndices)
    (regular : ∀ index ∈ newIndices, IsRegularIndex index)
    {index : IndexMetadata} {bitmap : RoaringBitmap} {group : RewriteGroup}
    (indexed : index ∈ newIndices) (covers : index.fragmentBitmap = some bitmap)
    (member : group ∈ groups) (straddles : groupStraddles bitmap group = true) (otherVersion : Nat) :
    checkTxn env self other otherVersion = .error (retryableConflictErr otherVersion) := by
  simp only [checkTxn, rewrite, checkRewriteTxn, create, find?_fragReuse_eq_none regular]
  split
  · rfl
  · rename_i noneStraddled
    refine absurd (List.any_eq_true.mpr ⟨index, indexed, ?_⟩) noneStraddled
    rw [covers]
    exact List.any_eq_true.mpr ⟨group, member, straddles⟩

/-- Committed second, a regular index is accepted after a rewrite with a
deferred remap, whatever the rewrite's groups. -/
theorem checkTxn_createIndex_after_rewrite (env : ResolverEnv) {self : TransactionRebase}
    {newIndices removedIndices : List IndexMetadata}
    (create : self.transaction.operation = .createIndex newIndices removedIndices)
    (regular : ∀ index ∈ newIndices, IsRegularIndex index)
    {other : Transaction} {groups : List RewriteGroup} {fri : IndexMetadata}
    (rewrite : other.operation = .rewrite groups (some fri)) (otherVersion : Nat) :
    checkTxn env self other otherVersion = .ok self := by
  have noReuse : newIndices.any (·.name == fragReuseIndexName) = false := by
    rw [List.any_eq_false]
    intro index member
    simpa using (regular index member).1
  simp only [checkTxn, create, checkCreateIndexTxn, rewrite, noReuse, Bool.false_eq_true, ↓reduceIte]

/-- The straddle check depends on the commit order: when a group of the
rewrite straddles a new index's fragments, the rewrite committed second is
rejected, but the index committed second is accepted. -/
theorem straddle_rejected_only_when_rewrite_commits_second (env : ResolverEnv)
    {rewriteRebase createRebase : TransactionRebase} {groups : List RewriteGroup} {fri : IndexMetadata}
    {newIndices removedIndices : List IndexMetadata}
    (rewrite : rewriteRebase.transaction.operation = .rewrite groups (some fri))
    (create : createRebase.transaction.operation = .createIndex newIndices removedIndices)
    (regular : ∀ index ∈ newIndices, IsRegularIndex index)
    {index : IndexMetadata} {bitmap : RoaringBitmap} {group : RewriteGroup}
    (indexed : index ∈ newIndices) (covers : index.fragmentBitmap = some bitmap)
    (member : group ∈ groups) (straddles : groupStraddles bitmap group = true) (otherVersion : Nat) :
    checkTxn env rewriteRebase createRebase.transaction otherVersion = .error (retryableConflictErr otherVersion) ∧
      checkTxn env createRebase rewriteRebase.transaction otherVersion = .ok createRebase :=
  ⟨checkTxn_rewrite_after_straddled_index env rewrite create regular indexed covers member straddles otherVersion,
    checkTxn_createIndex_after_rewrite env create regular rewrite otherVersion⟩

/-- A rewrite of fragments 1 and 2 with a deferred remap, against a new index
over fragment 1 only. -/
def straddlingGroup : RewriteGroup := ⟨[⟨1, [], none⟩, ⟨2, [], none⟩], [⟨3, [], none⟩]⟩

def fragmentOneIndex : IndexMetadata := ⟨"vec_idx", [0], some {1}, none⟩

def deferredRemapIndex : IndexMetadata := ⟨fragReuseIndexName, [], none, none⟩

theorem straddle_rejected_only_when_rewrite_commits_second_at_fragment_one :
    let rewriteRebase := fresh ⟨0, .rewrite [straddlingGroup] (some deferredRemapIndex)⟩ ∅ [] none
    let createRebase := fresh ⟨0, .createIndex [fragmentOneIndex] []⟩ ∅ [] none
    ((∀ index ∈ [fragmentOneIndex], IsRegularIndex index) ∧
      groupStraddles {1} straddlingGroup = true) ∧
    checkTxn ⟨fun _ _ => none, fun _ => .ok []⟩ rewriteRebase createRebase.transaction 1 =
        .error (retryableConflictErr 1) ∧
      checkTxn ⟨fun _ _ => none, fun _ => .ok []⟩ createRebase rewriteRebase.transaction 1 = .ok createRebase :=
  have regular : ∀ index ∈ [fragmentOneIndex], IsRegularIndex index := by
    simp [IsRegularIndex, fragmentOneIndex, fragReuseIndexName, memWalIndexName]
  ⟨⟨regular, by decide⟩,
    straddle_rejected_only_when_rewrite_commits_second ⟨fun _ _ => none, fun _ => .ok []⟩ rfl rfl regular
      List.mem_cons_self rfl List.mem_cons_self (by decide) 1⟩

/-! ### Merged MemWAL generations -/

theorem checkMergedGenerationsConflict_nil (toCommit : List MergedGeneration) (otherVersion : Nat) :
    checkMergedGenerationsConflict [] toCommit otherVersion = .ok () := rfl

theorem checkMergedGenerationsConflict_cons_unshared {committedMg : MergedGeneration}
    {rest toCommit : List MergedGeneration}
    (unshared : toCommit.find? (fun toCommitMg => toCommitMg.shardId == committedMg.shardId) = none)
    (otherVersion : Nat) :
    checkMergedGenerationsConflict (committedMg :: rest) toCommit otherVersion =
      checkMergedGenerationsConflict rest toCommit otherVersion := by
  simp only [checkMergedGenerationsConflict, List.findSome?_cons, unshared, Option.map_none]

theorem checkMergedGenerationsConflict_cons_shared {committedMg toCommitMg : MergedGeneration}
    {rest toCommit : List MergedGeneration}
    (shared : toCommit.find? (fun mg => mg.shardId == committedMg.shardId) = some toCommitMg)
    (otherVersion : Nat) :
    checkMergedGenerationsConflict (committedMg :: rest) toCommit otherVersion =
      if committedMg.generation ≥ toCommitMg.generation then .error (incompatibleConflictErr otherVersion)
      else .error (retryableConflictErr otherVersion) := by
  simp only [checkMergedGenerationsConflict, List.findSome?_cons, shared, Option.map_some]

/-- No conflict exactly when no shard is in both lists. -/
theorem checkMergedGenerationsConflict_eq_ok_iff (committed toCommit : List MergedGeneration)
    (otherVersion : Nat) :
    checkMergedGenerationsConflict committed toCommit otherVersion = .ok () ↔
      ∀ committedMg ∈ committed, ∀ toCommitMg ∈ toCommit, toCommitMg.shardId ≠ committedMg.shardId := by
  induction committed with
  | nil => simp [checkMergedGenerationsConflict_nil]
  | cons committedMg rest ih =>
    cases found : toCommit.find? (fun mg => mg.shardId == committedMg.shardId) with
    | none =>
      have apart : ∀ toCommitMg ∈ toCommit, toCommitMg.shardId ≠ committedMg.shardId := by
        simpa [List.find?_eq_none] using found
      rw [checkMergedGenerationsConflict_cons_unshared found, ih, List.forall_mem_cons]
      exact ⟨fun later => ⟨apart, later⟩, fun both => both.2⟩
    | some toCommitMg =>
      have same : toCommitMg.shardId = committedMg.shardId := by simpa using List.find?_some found
      rw [checkMergedGenerationsConflict_cons_shared found]
      constructor
      · intro ok
        split at ok <;> cases ok
      · intro apart
        exact absurd same (apart committedMg List.mem_cons_self toCommitMg (List.mem_of_find?_eq_some found))

/-- The kind of conflict depends on the order of the committed generations:
with one shard we may retry on and one already merged past ours, the result
is a retryable conflict when the first comes first and an incompatible one
when the second does, whatever follows. -/
theorem checkMergedGenerationsConflict_depends_on_order {retry superseded ours oursSuperseded : MergedGeneration}
    {toCommit : List MergedGeneration}
    (sharedRetry : toCommit.find? (fun mg => mg.shardId == retry.shardId) = some ours)
    (older : retry.generation < ours.generation)
    (sharedSuperseded : toCommit.find? (fun mg => mg.shardId == superseded.shardId) = some oursSuperseded)
    (notOlder : oursSuperseded.generation ≤ superseded.generation)
    (rest : List MergedGeneration) (otherVersion : Nat) :
    checkMergedGenerationsConflict (retry :: superseded :: rest) toCommit otherVersion =
        .error (retryableConflictErr otherVersion) ∧
      checkMergedGenerationsConflict (superseded :: retry :: rest) toCommit otherVersion =
        .error (incompatibleConflictErr otherVersion) := by
  rw [checkMergedGenerationsConflict_cons_shared sharedRetry, checkMergedGenerationsConflict_cons_shared sharedSuperseded]
  have notNewer : ¬ retry.generation ≥ ours.generation := by omega
  simp only [notNewer, ↓reduceIte, ge_iff_le, notOlder, and_self]

theorem checkMergedGenerationsConflict_depends_on_order_at_two_shards :
    ((([⟨0, 2⟩, ⟨1, 3⟩] : List MergedGeneration).find? (fun mg => mg.shardId == 0) = some ⟨0, 2⟩ ∧ 1 < 2) ∧
      (([⟨0, 2⟩, ⟨1, 3⟩] : List MergedGeneration).find? (fun mg => mg.shardId == 1) = some ⟨1, 3⟩ ∧ 3 ≤ 5)) ∧
    checkMergedGenerationsConflict [⟨0, 1⟩, ⟨1, 5⟩] [⟨0, 2⟩, ⟨1, 3⟩] 7 = .error (retryableConflictErr 7) ∧
      checkMergedGenerationsConflict [⟨1, 5⟩, ⟨0, 1⟩] [⟨0, 2⟩, ⟨1, 3⟩] 7 = .error (incompatibleConflictErr 7) :=
  ⟨⟨⟨rfl, by decide⟩, ⟨rfl, by decide⟩⟩,
    @checkMergedGenerationsConflict_depends_on_order ⟨0, 1⟩ ⟨1, 5⟩ ⟨0, 2⟩ ⟨1, 3⟩ [⟨0, 2⟩, ⟨1, 3⟩] rfl (by decide)
      rfl (by decide) [] 7⟩

end TransactionRebase

end Lance.Commit
