import Lance.Commit.Operation
import Lance.Library.ExceptRun

/-! `TransactionRebase` of `io/commit/conflict_resolver.rs`. `try_new` builds
the rebase state of a transaction about to be committed; `check_txn` checks it
against one transaction committed concurrently, updating the state or
returning an error; the commit loop runs `check_txn` over every transaction
committed since the read version and stops at the first error. Mutation
through `&mut self` becomes a returned state. Error messages are not modelled,
only their kind, the version they name, and the fragment a removed-target
error names. -/

namespace Lance.Commit

open Lance.Select Lance.Library

/-- Why an incompatible-transaction error was raised. -/
inductive IncompatibleReason where
  /-- `incompatible_conflict_err`. -/
  | incompatible
  /-- `data_replacement_target_removed_err`: the replaced fragment was removed. -/
  | targetRemoved (fragmentId : Nat)
  deriving DecidableEq, Repr

inductive Error where
  /-- `retryable_commit_conflict_source`: preempted by the commit at `version`. -/
  | retryableCommitConflict (version : Nat)
  /-- `incompatible_transaction_source`. -/
  | incompatibleTransaction (reason : IncompatibleReason) (version : Nat)
  /-- `Error::internal`, raised by `wrong_operation_err`. -/
  | internal
  /-- An error of `load_mem_wal_index_details`, propagated unchanged. -/
  | indexDetails
  deriving DecidableEq, Repr

/-- A commit conflict: the two kinds of error the checks report against a
concurrent transaction. -/
def Error.IsConflict : Error → Prop
  | .retryableCommitConflict _ => True
  | .incompatibleTransaction _ _ => True
  | _ => False

/-- The manifest of one dataset version, with what the rebase reads of it. -/
structure Dataset where
  version : Nat
  fragments : List Fragment

/-- `initial_fragments`: fragment id to the fragment as it was at the read
version and whether it needs a rewrite. -/
abbrev FragmentMap := AList (fun _ : Nat => Fragment × Bool)

structure TransactionRebase where
  transaction : Transaction
  initialFragments : FragmentMap
  modifiedFragmentIds : List Nat
  affectedRows : Option RowAddrTreeMap
  conflictingFragReuseIndices : List IndexMetadata
  conflictingMemWalMergedGens : List MergedGeneration

/-- What the checks call outside this file: the comparison of two bloom filters
inside `KeyExistenceFilter::intersects`, and `load_mem_wal_index_details`,
which decodes the merged generations of a MemWAL index. -/
structure ResolverEnv where
  bloomMightIntersect : FilterType → FilterType → Option Bool
  loadMemWalMergedGenerations : IndexMetadata → Except Error (List MergedGeneration)

def fragReuseIndexName : String := "__lance_frag_reuse"

def memWalIndexName : String := "__lance_mem_wal"

/-! ## `try_new` -/

/-- The dataset as `initial_fragments_for_rebase` reads it: checked out at the
transaction's read version unless it already is at that version. -/
def Dataset.atVersion (dataset : Dataset) (checkoutVersion : Nat → Dataset)
    (readVersion : Nat) : Dataset :=
  if dataset.version ≠ readVersion then checkoutVersion readVersion else dataset

/-- `collect::<HashMap<_, _>>` of fragments by id: a later fragment replaces an
earlier one with the same id. -/
def collectFragments (fragments : List Fragment) : FragmentMap :=
  fragments.foldl (fun map fragment => map.insert fragment.id (fragment, false)) ∅

/-- `initial_fragments_for_rebase`: the read-version fragments we modify. -/
def initialFragmentsForRebase (dataset : Dataset) (checkoutVersion : Nat → Dataset)
    (transaction : Transaction) (modifiedFragmentIds : List Nat) : FragmentMap :=
  if modifiedFragmentIds.isEmpty then ∅
  else
    collectFragments ((dataset.atVersion checkoutVersion transaction.readVersion).fragments.filter
      fun fragment => modifiedFragmentIds.contains fragment.id)

/-- The fragments an operation modifies, as `try_new` collects them. -/
def modifiedFragmentIdsOf : Operation → List Nat
  | .delete updatedFragments deletedFragmentIds =>
    updatedFragments.map Fragment.id ++ deletedFragmentIds
  | .update removedFragmentIds updatedFragments _ _ _ _ _ =>
    updatedFragments.map Fragment.id ++ removedFragmentIds
  | .rewrite groups _ => rewrittenFragmentIds groups
  | .dataReplacement replacements => replacements.map DataReplacementGroup.fragmentId
  | .dataOverlay groups => groups.map DataOverlayGroup.fragmentId
  | .merge fragments => fragments.map Fragment.id
  | _ => []

def TransactionRebase.fresh (transaction : Transaction) (initialFragments : FragmentMap)
    (modifiedFragmentIds : List Nat) (affectedRows : Option RowAddrTreeMap) :
    TransactionRebase :=
  { transaction, initialFragments, modifiedFragmentIds, affectedRows
    conflictingFragReuseIndices := []
    conflictingMemWalMergedGens := [] }

/-- `try_new`. A delete or update of whole fragments only (no updated fragment)
with affected rows drops the affected rows and reads no fragments; the
`affected_rows.is_none()` test of the overlap checks then fails any overlap. -/
def TransactionRebase.tryNew (dataset : Dataset) (checkoutVersion : Nat → Dataset)
    (transaction : Transaction) (affectedRows : Option RowAddrTreeMap) : TransactionRebase :=
  let modified := modifiedFragmentIdsOf transaction.operation
  let initial := initialFragmentsForRebase dataset checkoutVersion transaction modified
  match transaction.operation with
  | .delete updatedFragments _ | .update _ updatedFragments _ _ _ _ _ =>
    if updatedFragments.isEmpty && affectedRows.isSome then
      fresh transaction ∅ modified none
    else
      fresh transaction initial modified affectedRows
  | .rewrite .. | .dataReplacement _ | .dataOverlay _ | .merge _ =>
    fresh transaction initial modified affectedRows
  | _ => fresh transaction ∅ [] affectedRows

/-! ## Shared pieces of the checks -/

namespace TransactionRebase

def retryableConflictErr (otherVersion : Nat) : Error := .retryableCommitConflict otherVersion

def incompatibleConflictErr (otherVersion : Nat) : Error :=
  .incompatibleTransaction .incompatible otherVersion

/-- The arms that conflict exactly when the concurrent transaction touches one
of the fragments we modify: `ids.any(|id| self.modified_fragment_ids.contains(&id))`. -/
def conflictIfTouched (self : TransactionRebase) (ids : List Nat) (otherVersion : Nat) :
    Except Error TransactionRebase :=
  if ids.any self.modifiedFragmentIds.contains then .error (retryableConflictErr otherVersion)
  else .ok self

/-- The loop over a concurrent delete's or update's `updated_fragments`: a
fragment of ours whose data files changed cannot be rebased, and one whose
deletion file changed is marked as needing a rewrite. -/
def markUpdatedFragments (otherVersion : Nat) :
    FragmentMap → List Fragment → Except Error FragmentMap
  | initial, [] => .ok initial
  | initial, updated :: rest =>
    match initial.lookup updated.id with
    | some (fragment, needsRewrite) =>
      if fragment.files ≠ updated.files then .error (retryableConflictErr otherVersion)
      else
        markUpdatedFragments otherVersion
          (initial.insert updated.id
            (fragment, needsRewrite || decide (updated.deletionFile ≠ fragment.deletionFile)))
          rest
    | none => markUpdatedFragments otherVersion initial rest

/-- The `Update | Delete` arm of `check_delete_txn` and `check_update_txn`: the
two transactions can be rebased row by row only when we have affected rows,
the other kept our fragments' data files and removed none of the fragments we
read. -/
def checkDeleteUpdateOverlap (self : TransactionRebase) (updatedFragments : List Fragment)
    (removedFragmentIds : List Nat) (otherVersion : Nat) : Except Error TransactionRebase :=
  if !(updatedFragments.map Fragment.id ++ removedFragmentIds).any
      self.modifiedFragmentIds.contains then
    .ok self
  else if self.affectedRows.isNone then
    .error (retryableConflictErr otherVersion)
  else
    match markUpdatedFragments otherVersion self.initialFragments updatedFragments with
    | .error failure => .error failure
    | .ok initial =>
      if removedFragmentIds.any fun id => decide (id ∈ initial) then
        .error (retryableConflictErr otherVersion)
      else .ok { self with initialFragments := initial }

/-- `check_merged_generations_conflict`: the first committed generation whose
shard we also merge decides, incompatibly when it is not older than ours. -/
def checkMergedGenerationsConflict (committed toCommit : List MergedGeneration)
    (otherVersion : Nat) : Except Error Unit :=
  match committed.findSome? fun committedMg =>
      (toCommit.find? fun toCommitMg => toCommitMg.shardId == committedMg.shardId).map
        (committedMg, ·) with
  | none => .ok ()
  | some (committedMg, toCommitMg) =>
    if committedMg.generation ≥ toCommitMg.generation then
      .error (incompatibleConflictErr otherVersion)
    else .error (retryableConflictErr otherVersion)

/-- `overlay_group_coverage`: the offsets covered by any overlay of the group. -/
def overlayGroupCoverage (group : DataOverlayGroup) : RoaringBitmap :=
  group.overlays.foldl (fun union overlay =>
    match overlay.coverage with
    | .shared bitmap => union ∪ bitmap
    | .perField bitmaps => bitmaps.foldl (· ∪ ·) union) ∅

/-- The fragments covered by every new index, or `none` when one has no
fragment bitmap (the source then returns a retryable conflict). -/
def indexedFragments : List IndexMetadata → Option RoaringBitmap
  | [] => some ∅
  | index :: rest =>
    match index.fragmentBitmap with
    | none => none
    | some bitmap => (indexedFragments rest).map (bitmap ∪ ·)

end TransactionRebase

/-! ## The checks of data-modifying transactions -/

namespace TransactionRebase

def checkDeleteTxn (self : TransactionRebase) (other : Transaction) (otherVersion : Nat) :
    Except Error TransactionRebase :=
  match self.transaction.operation with
  | .delete .. =>
    match other.operation with
    | .createIndex .. | .reserveFragments | .clone | .project | .append | .updateConfig .. => .ok self
    -- a concurrent overlay is inert against the rows we delete
    | .dataOverlay _ | .updateBases _ => .ok self
    | .rewrite groups _ => self.conflictIfTouched (rewrittenFragmentIds groups) otherVersion
    | .dataReplacement replacements =>
      self.conflictIfTouched (replacements.map DataReplacementGroup.fragmentId) otherVersion
    | .update removedFragmentIds updatedFragments _ _ _ _ _ | .delete updatedFragments removedFragmentIds =>
      self.checkDeleteUpdateOverlap updatedFragments removedFragmentIds otherVersion
    | .merge _ => .error (retryableConflictErr otherVersion)
    | .overwrite _ | .restore | .updateMemWalState _ => .error (incompatibleConflictErr otherVersion)
  | _ => .error .internal

/-- The primary-key pre-check of `check_update_txn` against a concurrent update:
`some` error when the inserted-rows filters cannot rule out a shared key. -/
def keyFilterConflict (env : ResolverEnv) (selfFilter otherFilter : Option KeyExistenceFilter)
    (otherVersion : Nat) : Option Error :=
  match selfFilter, otherFilter with
  | some selfKeys, some otherKeys =>
    if selfKeys.fieldIds ≠ otherKeys.fieldIds then some (retryableConflictErr otherVersion)
    else
      match selfKeys.intersects env.bloomMightIntersect otherKeys with
      | none => some (retryableConflictErr otherVersion)
      | some (hasIntersection, _) =>
        if hasIntersection then some (retryableConflictErr otherVersion) else none
  | some _, none => some (retryableConflictErr otherVersion)
  | _, _ => none

/-- The loop over a concurrent overlay's groups when our update moves rows: an
overlaid fragment of ours conflicts when we have no affected rows, or when the
rows we moved out of it meet the overlay's coverage. -/
def checkMovedRowsAgainstOverlay (self : TransactionRebase) (otherVersion : Nat) :
    List DataOverlayGroup → Except Error Unit
  | [] => .ok ()
  | group :: rest =>
    if !self.modifiedFragmentIds.contains group.fragmentId then
      checkMovedRowsAgainstOverlay self otherVersion rest
    else
      match self.affectedRows with
      | none => .error (retryableConflictErr otherVersion)
      | some affectedRows =>
        match affectedRows.getFragmentBitmap (UInt32.ofNat group.fragmentId) with
        | none => checkMovedRowsAgainstOverlay self otherVersion rest
        | some moved =>
          if (moved ∩ overlayGroupCoverage group).Nonempty then
            .error (retryableConflictErr otherVersion)
          else checkMovedRowsAgainstOverlay self otherVersion rest

def updateKeyConflict (env : ResolverEnv) (selfFilter : Option KeyExistenceFilter)
    (other : Transaction) (otherVersion : Nat) : Option Error :=
  match other.operation with
  | .update _ _ _ _ _ _ otherInsertedRowsFilter =>
    keyFilterConflict env selfFilter otherInsertedRowsFilter otherVersion
  | _ => none

/-- Whether an update with these new fragments and mode moves the rows it
touches out to new fragments (`RewriteRows`, the default). -/
def movesRows (newFragments : List Fragment) (updateMode : Option UpdateMode) : Bool :=
  !newFragments.isEmpty && (updateMode == some .rewriteRows || updateMode == none)

def checkUpdateTxn (env : ResolverEnv) (self : TransactionRebase) (other : Transaction)
    (otherVersion : Nat) : Except Error TransactionRebase :=
  match self.transaction.operation with
  | .update _ _ selfNewFragments _ selfMergedGenerations selfUpdateMode selfInsertedRowsFilter =>
    match updateKeyConflict env selfInsertedRowsFilter other otherVersion with
    | some failure => .error failure
    | none =>
      match other.operation with
      | .createIndex .. | .reserveFragments | .project | .clone | .updateConfig ..
      | .updateBases _ => .ok self
      | .dataOverlay groups =>
        if !movesRows selfNewFragments selfUpdateMode then .ok self
        else (checkMovedRowsAgainstOverlay self otherVersion groups).map fun _ => self
      | .append =>
        if selfInsertedRowsFilter.isSome then .error (retryableConflictErr otherVersion)
        else .ok self
      | .rewrite groups _ => self.conflictIfTouched (rewrittenFragmentIds groups) otherVersion
      | .dataReplacement replacements =>
        self.conflictIfTouched (replacements.map DataReplacementGroup.fragmentId) otherVersion
      | .update removedFragmentIds updatedFragments _ _ _ _ _
      | .delete updatedFragments removedFragmentIds =>
        self.checkDeleteUpdateOverlap updatedFragments removedFragmentIds otherVersion
      | .merge _ => .error (retryableConflictErr otherVersion)
      | .overwrite _ | .restore => .error (incompatibleConflictErr otherVersion)
      | .updateMemWalState otherMergedGenerations =>
        (checkMergedGenerationsConflict otherMergedGenerations selfMergedGenerations
          otherVersion).map fun _ => self
  | _ => .error .internal

end TransactionRebase

namespace TransactionRebase

/-- Whether a rewrite group straddles an index's fragment bitmap: some of its
old fragments are indexed and some are not. -/
def groupStraddles (bitmap : RoaringBitmap) (group : RewriteGroup) : Bool :=
  let indexed := group.oldFragments.countP fun frag => decide (UInt32.ofNat frag.id ∈ bitmap)
  let unindexed := group.oldFragments.countP fun frag => decide (UInt32.ofNat frag.id ∉ bitmap)
  indexed > 0 && unindexed > 0

/-- The rewrite-against-index overlap test shared by `check_create_index_txn`
and `check_rewrite_txn`: a new index without a fragment bitmap, or one that
covers a rewritten fragment, conflicts. -/
def checkIndexedRewrite (self : TransactionRebase) (newIndices : List IndexMetadata)
    (groups : List RewriteGroup) (otherVersion : Nat) : Except Error TransactionRebase :=
  match indexedFragments newIndices with
  | none => .error (retryableConflictErr otherVersion)
  | some affectedIds =>
    if (rewrittenFragmentIds groups).any fun id => decide (UInt32.ofNat id ∈ affectedIds) then
      .error (retryableConflictErr otherVersion)
    else .ok self

def replacesIndexedField (newIndices : List IndexMetadata)
    (replacements : List DataReplacementGroup) : Bool :=
  replacements.any fun replacement =>
    replacement.file.fields.any fun field => newIndices.any fun index => index.fields.contains field

/-- Whether some index of `indices` has this name. -/
def hasIndexNamed (indices : List IndexMetadata) (name : String) : Bool :=
  indices.any (·.name == name)

/-- Two concurrent index creations clash when both write the fragment-reuse
index, both write the MemWAL index, or they create a regular index of the same
name. -/
def indexNamesConflict (newIndices createdIndices : List IndexMetadata) : Bool :=
  let hasRegularNameConflict :=
    (newIndices.filter fun index =>
        index.name != fragReuseIndexName && index.name != memWalIndexName).any
      fun newIndex => hasIndexNamed createdIndices newIndex.name
  (hasIndexNamed newIndices fragReuseIndexName && hasIndexNamed createdIndices fragReuseIndexName) ||
    (hasIndexNamed newIndices memWalIndexName && hasIndexNamed createdIndices memWalIndexName) ||
    hasRegularNameConflict

def checkCreateIndexTxn (self : TransactionRebase) (other : Transaction) (otherVersion : Nat) :
    Except Error TransactionRebase :=
  match self.transaction.operation with
  | .createIndex newIndices removedIndices =>
    match other.operation with
    | .append | .clone | .dataOverlay _ | .updateBases _ => .ok self
    | .createIndex createdIndices _ =>
      if indexNamesConflict newIndices createdIndices then .error (retryableConflictErr otherVersion)
      else .ok self
    | .delete .. | .update .. | .merge _ | .reserveFragments | .project | .updateConfig .. =>
      .ok self
    | .rewrite groups fragReuseIndex =>
      match fragReuseIndex with
      | some committedFri =>
        if newIndices.any (·.name == fragReuseIndexName) then
          if newIndices.length ≠ 1 || removedIndices.length ≠ 1 then
            .error (incompatibleConflictErr otherVersion)
          else
            .ok { self with
              conflictingFragReuseIndices := self.conflictingFragReuseIndices ++ [committedFri] }
        else .ok self
      | none => self.checkIndexedRewrite newIndices groups otherVersion
    | .dataReplacement replacements =>
      if replacesIndexedField newIndices replacements then .error (retryableConflictErr otherVersion)
      else .ok self
    | .updateMemWalState otherMergedGens =>
      if newIndices.any (·.name == memWalIndexName) then
        .ok { self with
          conflictingMemWalMergedGens := self.conflictingMemWalMergedGens ++ otherMergedGens }
      else .error (incompatibleConflictErr otherVersion)
    | .overwrite _ | .restore => .error (incompatibleConflictErr otherVersion)
  | _ => .error .internal

def checkRewriteTxn (self : TransactionRebase) (other : Transaction) (otherVersion : Nat) :
    Except Error TransactionRebase :=
  match self.transaction.operation with
  | .rewrite groups fragReuseIndex =>
    match other.operation with
    | .append | .reserveFragments | .project | .clone | .updateConfig .. | .updateMemWalState _
    | .updateBases _ => .ok self
    | .delete updatedFragments deletedFragmentIds
    | .update deletedFragmentIds updatedFragments _ _ _ _ _ =>
      self.conflictIfTouched (updatedFragments.map Fragment.id ++ deletedFragmentIds) otherVersion
    -- rewriting a fragment invalidates an overlay addressed by its physical offsets
    | .dataOverlay otherGroups =>
      self.conflictIfTouched (otherGroups.map DataOverlayGroup.fragmentId) otherVersion
    | .rewrite otherGroups committedFri =>
      if (rewrittenFragmentIds otherGroups).any self.modifiedFragmentIds.contains then
        .error (retryableConflictErr otherVersion)
      else if committedFri.isSome && fragReuseIndex.isSome then
        .error (retryableConflictErr otherVersion)
      else .ok self
    | .dataReplacement replacements =>
      if replacements.any fun replacement =>
          (rewrittenFragmentIds groups).contains replacement.fragmentId then
        .error (retryableConflictErr otherVersion)
      else .ok self
    | .merge _ => .error (retryableConflictErr otherVersion)
    | .createIndex newIndices removedIndices =>
      match newIndices.find? (·.name == fragReuseIndexName), fragReuseIndex with
      | some committedFri, some _ =>
        if newIndices.length ≠ 1 || removedIndices.length ≠ 1 then
          .error (incompatibleConflictErr otherVersion)
        else
          .ok { self with
            conflictingFragReuseIndices := self.conflictingFragReuseIndices ++ [committedFri] }
      -- a deferred remap needs every group wholly inside or outside each new index
      | none, some _ =>
        if newIndices.any (fun index =>
            match index.fragmentBitmap with
            | none => true
            | some bitmap => groups.any (groupStraddles bitmap)) then
          .error (retryableConflictErr otherVersion)
        else .ok self
      | some _, none =>
        if newIndices.length ≠ 1 || removedIndices.length ≠ 1 then
          .error (incompatibleConflictErr otherVersion)
        else .ok self
      | none, none => self.checkIndexedRewrite newIndices groups otherVersion
    | .overwrite _ | .restore => .error (incompatibleConflictErr otherVersion)
  | _ => .error .internal

end TransactionRebase

namespace TransactionRebase

def checkOverwriteTxn (self : TransactionRebase) (other : Transaction) (otherVersion : Nat) :
    Except Error TransactionRebase :=
  match other.operation with
  | .overwrite _ =>
    if self.transaction.operation.upsertKeyConflict other.operation then
      .error (incompatibleConflictErr otherVersion)
    -- concurrent overwrites are retryable, so the user decides whether to proceed
    else .error (retryableConflictErr otherVersion)
  | .updateConfig .. =>
    if self.transaction.operation.upsertKeyConflict other.operation then
      .error (incompatibleConflictErr otherVersion)
    else .ok self
  | .updateMemWalState _ => .error (incompatibleConflictErr otherVersion)
  | _ => .ok self

def checkAppendTxn (self : TransactionRebase) (other : Transaction) (otherVersion : Nat) :
    Except Error TransactionRebase :=
  match other.operation with
  | .overwrite _ | .restore | .updateMemWalState _ => .error (incompatibleConflictErr otherVersion)
  | _ => .ok self

/-- The replacement loop of `check_data_replacement_txn` against a concurrent
update: a replaced fragment the update removed is an incompatible conflict; one
it updated conflicts when the update moved rows or rewrote a replaced field. -/
def checkReplacementsAgainstUpdate (removedFragmentIds : List Nat)
    (updatedFragments newFragments : List Fragment) (fieldsModified : List Nat)
    (updateMode : Option UpdateMode) (otherVersion : Nat) :
    List DataReplacementGroup → Except Error Unit
  | [] => .ok ()
  | replacement :: rest =>
    if removedFragmentIds.contains replacement.fragmentId then
      .error (.incompatibleTransaction (.targetRemoved replacement.fragmentId) otherVersion)
    else if !updatedFragments.any (·.id == replacement.fragmentId) then
      checkReplacementsAgainstUpdate removedFragmentIds updatedFragments newFragments
        fieldsModified updateMode otherVersion rest
    else
      let fieldRewritten := replacement.file.fields.any fun field =>
        decide (0 ≤ field) && fieldsModified.contains field.toNat
      if movesRows newFragments updateMode || fieldRewritten then
        .error (retryableConflictErr otherVersion)
      else
        checkReplacementsAgainstUpdate removedFragmentIds updatedFragments newFragments
          fieldsModified updateMode otherVersion rest

def replacementsOverlap (replacements otherReplacements : List DataReplacementGroup) : Bool :=
  replacements.any fun replacement => otherReplacements.any fun otherReplacement =>
    replacement.fragmentId == otherReplacement.fragmentId &&
      replacement.file.fields.any otherReplacement.file.fields.contains

def checkDataReplacementTxn (self : TransactionRebase) (other : Transaction)
    (otherVersion : Nat) : Except Error TransactionRebase :=
  match self.transaction.operation with
  | .dataReplacement replacements =>
    match other.operation with
    | .append | .clone | .updateConfig .. | .reserveFragments | .project | .dataOverlay _
    | .updateBases _ => .ok self
    | .merge _ => .error (retryableConflictErr otherVersion)
    -- a delete only tombstones rows, unless it removed our target outright
    | .delete _ deletedFragmentIds =>
      match replacements.find? fun replacement => deletedFragmentIds.contains replacement.fragmentId with
      | some replacement =>
        .error (.incompatibleTransaction (.targetRemoved replacement.fragmentId) otherVersion)
      | none => .ok self
    | .update removedFragmentIds updatedFragments newFragments fieldsModified _ updateMode _ =>
      (checkReplacementsAgainstUpdate removedFragmentIds updatedFragments newFragments
        fieldsModified updateMode otherVersion replacements).map fun _ => self
    | .createIndex newIndices _ =>
      if replacesIndexedField newIndices replacements then .error (retryableConflictErr otherVersion)
      else .ok self
    | .rewrite groups _ =>
      if replacements.any fun replacement =>
          (rewrittenFragmentIds groups).contains replacement.fragmentId then
        .error (retryableConflictErr otherVersion)
      else .ok self
    | .dataReplacement otherReplacements =>
      if replacementsOverlap replacements otherReplacements then
        .error (retryableConflictErr otherVersion)
      else .ok self
    | .overwrite _ | .restore | .updateMemWalState _ => .error (incompatibleConflictErr otherVersion)
  | _ => .error .internal

/-- Mark each of our fragments that a row-moving update touched, for the
row-by-row check of `finish_data_overlay`. -/
def markRowCheck (initial : FragmentMap) : List Fragment → FragmentMap
  | [] => initial
  | updated :: rest =>
    match initial.lookup updated.id with
    | some (fragment, _) => markRowCheck (initial.insert updated.id (fragment, true)) rest
    | none => markRowCheck initial rest

def checkDataOverlayTxn (self : TransactionRebase) (other : Transaction) (otherVersion : Nat) :
    Except Error TransactionRebase :=
  match other.operation with
  | .append | .createIndex .. | .reserveFragments | .project | .updateConfig .. | .updateBases _
  | .clone | .dataReplacement _ | .dataOverlay _ => .ok self
  | .delete _ deletedFragmentIds => self.conflictIfTouched deletedFragmentIds otherVersion
  | .update removedFragmentIds updatedFragments newFragments _ _ updateMode _ =>
    if removedFragmentIds.any self.modifiedFragmentIds.contains then
      .error (retryableConflictErr otherVersion)
    else if movesRows newFragments updateMode then
      .ok { self with initialFragments := markRowCheck self.initialFragments updatedFragments }
    else .ok self
  | .rewrite groups _ => self.conflictIfTouched (rewrittenFragmentIds groups) otherVersion
  | .merge _ => .error (retryableConflictErr otherVersion)
  | .overwrite _ | .restore | .updateMemWalState _ => .error (incompatibleConflictErr otherVersion)

def checkMergeTxn (self : TransactionRebase) (other : Transaction) (otherVersion : Nat) :
    Except Error TransactionRebase :=
  match other.operation with
  | .createIndex .. | .reserveFragments | .clone | .updateConfig .. | .updateBases _ => .ok self
  | .update .. | .append | .delete .. | .rewrite .. | .merge _ | .dataReplacement _
  | .dataOverlay _ => .error (retryableConflictErr otherVersion)
  | .overwrite _ | .restore | .project | .updateMemWalState _ =>
    .error (incompatibleConflictErr otherVersion)

end TransactionRebase

namespace TransactionRebase

def checkRestoreTxn (self : TransactionRebase) (other : Transaction) (otherVersion : Nat) :
    Except Error TransactionRebase :=
  match other.operation with
  | .updateMemWalState _ => .error (incompatibleConflictErr otherVersion)
  | _ => .ok self

def checkReserveFragmentsTxn (self : TransactionRebase) (other : Transaction)
    (otherVersion : Nat) : Except Error TransactionRebase :=
  match other.operation with
  | .overwrite _ | .restore => .error (incompatibleConflictErr otherVersion)
  | _ => .ok self

/-- `check_project_txn`: compatible with anything that keeps the schema. -/
def checkProjectTxn (self : TransactionRebase) (other : Transaction) (otherVersion : Nat) :
    Except Error TransactionRebase :=
  match other.operation with
  | .merge _ | .project => .error (retryableConflictErr otherVersion)
  | .overwrite _ | .restore | .updateMemWalState _ => .error (incompatibleConflictErr otherVersion)
  | _ => .ok self

def checkUpdateConfigTxn (self : TransactionRebase) (other : Transaction) (otherVersion : Nat) :
    Except Error TransactionRebase :=
  match self.transaction.operation with
  | .updateConfig _ _ schemaMetadataUpdates fieldMetadataUpdates =>
    match other.operation with
    | .overwrite _ =>
      if schemaMetadataUpdates.isSome || !fieldMetadataUpdates.isEmpty ||
          self.transaction.operation.upsertKeyConflict other.operation then
        .error (incompatibleConflictErr otherVersion)
      else .ok self
    | .updateConfig .. =>
      if self.transaction.operation.upsertKeyConflict other.operation ||
          self.transaction.operation.modifiesSameMetadata other.operation then
        .error (incompatibleConflictErr otherVersion)
      else .ok self
    | _ => .ok self
  | _ => .error .internal

def checkUpdateMemWalStateTxn (env : ResolverEnv) (self : TransactionRebase)
    (other : Transaction) (otherVersion : Nat) : Except Error TransactionRebase :=
  match self.transaction.operation with
  | .updateMemWalState selfMergedGenerations =>
    match other.operation with
    | .updateMemWalState otherMergedGenerations
    | .update _ _ _ _ otherMergedGenerations _ _ =>
      (checkMergedGenerationsConflict otherMergedGenerations selfMergedGenerations
        otherVersion).map fun _ => self
    | .createIndex newIndices _ =>
      match newIndices.find? (·.name == memWalIndexName) with
      | some memWalIdx =>
        match env.loadMemWalMergedGenerations memWalIdx with
        | .error failure => .error failure
        | .ok mergedGenerations =>
          (checkMergedGenerationsConflict mergedGenerations selfMergedGenerations
            otherVersion).map fun _ => self
      | none => .ok self
    | .updateConfig .. | .rewrite .. | .reserveFragments | .updateBases _ => .ok self
    | .append | .overwrite _ | .delete .. | .dataReplacement _ | .dataOverlay _ | .merge _
    | .restore | .clone | .project => .error (incompatibleConflictErr otherVersion)
  | _ => .error .internal

/-- Whether two base paths clash: the same non-zero id, the same name, or the
same path. -/
def basesClash (newBase committedBase : BasePath) : Bool :=
  (newBase.id != 0 && committedBase.id != 0 && newBase.id == committedBase.id) ||
    (newBase.name == committedBase.name && newBase.name.isSome) ||
    newBase.path == committedBase.path

def checkAddBasesTxn (self : TransactionRebase) (other : Transaction) (otherVersion : Nat) :
    Except Error TransactionRebase :=
  match self.transaction.operation with
  | .updateBases newBases =>
    match other.operation with
    | .updateBases committedBases =>
      if newBases.any fun newBase => committedBases.any (basesClash newBase) then
        .error (incompatibleConflictErr otherVersion)
      else .ok self
    | _ => .ok self
  | _ => .error .internal

/-- `check_txn`: dispatch on our own operation. -/
def checkTxn (env : ResolverEnv) (self : TransactionRebase) (other : Transaction)
    (otherVersion : Nat) : Except Error TransactionRebase :=
  match self.transaction.operation with
  | .delete .. => self.checkDeleteTxn other otherVersion
  | .update .. => checkUpdateTxn env self other otherVersion
  | .createIndex .. => self.checkCreateIndexTxn other otherVersion
  | .rewrite .. => self.checkRewriteTxn other otherVersion
  | .overwrite _ => self.checkOverwriteTxn other otherVersion
  | .append => self.checkAppendTxn other otherVersion
  | .dataReplacement _ => self.checkDataReplacementTxn other otherVersion
  | .dataOverlay _ => self.checkDataOverlayTxn other otherVersion
  | .merge _ => self.checkMergeTxn other otherVersion
  | .restore => self.checkRestoreTxn other otherVersion
  | .reserveFragments => self.checkReserveFragmentsTxn other otherVersion
  | .project => self.checkProjectTxn other otherVersion
  | .updateConfig .. => self.checkUpdateConfigTxn other otherVersion
  | .updateMemWalState _ => checkUpdateMemWalStateTxn env self other otherVersion
  | .clone => .ok self
  | .updateBases _ => self.checkAddBasesTxn other otherVersion

/-- One step of the commit loop: check against the transaction committed at a
version, as `rebase.check_txn(other_transaction, *other_version)?`. -/
def checkStep (env : ResolverEnv) (self : TransactionRebase) (committed : Nat × Transaction) :
    Except Error TransactionRebase :=
  checkTxn env self committed.2 committed.1

/-- The checks of the commit loop against every transaction committed since the
read version, in version order; the first error aborts the attempt. -/
def checkAll (env : ResolverEnv) (self : TransactionRebase)
    (otherTransactions : List (Nat × Transaction)) : Except Error TransactionRebase :=
  otherTransactions.foldlM (checkStep env) self

end TransactionRebase

end Lance.Commit
