import Lance.Select.RowAddrTreeMap

/-! The transaction data that the commit conflict checks read
(`dataset/transaction.rs`, `format/fragment.rs`). Each record keeps the fields
some modelled function reads; a data file and a deletion file keep all of their
fields, since the checks compare them as a whole. Fragment, index and version
ids are `u64` in the source and `Nat` here: the checks only compare them, apart
from the explicit `as u32` casts, which `UInt32.ofNat` models. -/

namespace Lance.Commit

open Lance.Select

inductive DeletionFileType where
  | array
  | bitmap
  deriving DecidableEq, Repr

/-- `DataFile`: one file storing some columns of a fragment. -/
structure DataFile where
  path : String
  fields : List Int
  columnIndices : List Int
  fileMajorVersion : Nat
  fileMinorVersion : Nat
  fileSizeBytes : Nat
  baseId : Option Nat
  deriving DecidableEq, Repr

/-- `DeletionFile`: the tombstones of a fragment. -/
structure DeletionFile where
  readVersion : Nat
  id : Nat
  fileType : DeletionFileType
  numDeletedRows : Option Nat
  baseId : Option Nat
  deriving DecidableEq, Repr

/-- `Fragment`, with the fields the conflict checks read. -/
structure Fragment where
  id : Nat
  files : List DataFile
  deletionFile : Option DeletionFile
  deriving DecidableEq, Repr

/-- `IndexMetadata`: `fragment_bitmap` lists the fragments the index covers and
`index_details` is the serialized detail message of a system index. -/
structure IndexMetadata where
  name : String
  fields : List Int
  fragmentBitmap : Option RoaringBitmap
  indexDetails : Option (List UInt8)
  deriving DecidableEq

structure RewriteGroup where
  oldFragments : List Fragment
  newFragments : List Fragment
  deriving DecidableEq

/-- `DataReplacementGroup(fragment_id, new_file)`. -/
structure DataReplacementGroup where
  fragmentId : Nat
  file : DataFile
  deriving DecidableEq

/-- `OverlayCoverage`: the offsets an overlay supplies, shared by all its fields
or given per field. -/
inductive OverlayCoverage where
  | shared (bitmap : RoaringBitmap)
  | perField (bitmaps : List RoaringBitmap)
  deriving DecidableEq

structure DataOverlayFile where
  dataFile : DataFile
  coverage : OverlayCoverage
  committedVersion : Nat
  deriving DecidableEq

structure DataOverlayGroup where
  fragmentId : Nat
  overlays : List DataOverlayFile
  deriving DecidableEq

/-- `MergedGeneration`: the generation of a MemWAL shard merged into the table. -/
structure MergedGeneration where
  shardId : Nat
  generation : Nat
  deriving DecidableEq, Repr

inductive UpdateMode where
  | rewriteRows
  | rewriteColumns
  deriving DecidableEq, Repr

/-- `FilterType` of a key-existence filter. The bloom variant's `f64`
probability is kept as its IEEE bit pattern. -/
inductive FilterType where
  | exactSet (hashes : List Nat)
  | bloom (bitmap : List UInt8) (numBits : Nat) (numberOfItems : Nat) (probability : UInt64)
  deriving DecidableEq

/-- `KeyExistenceFilter`: the primary keys a merge-insert inserted. -/
structure KeyExistenceFilter where
  fieldIds : List Int
  filter : FilterType
  deriving DecidableEq

/-- `KeyExistenceFilter::intersects`, `none` where it returns an error. Two bloom
filters are compared by `bloomMightIntersect`, which stands for the comparison
of their configurations followed by `Sbbf::bytes_might_intersect`. -/
def KeyExistenceFilter.intersects (bloomMightIntersect : FilterType → FilterType → Option Bool)
    (self other : KeyExistenceFilter) : Option (Bool × Bool) :=
  match self.filter, other.filter with
  | .exactSet left, .exactSet right => some (left.any right.contains, false)
  | .exactSet _, .bloom .. | .bloom .., .exactSet _ => some (true, true)
  | left@(.bloom ..), right@(.bloom ..) =>
    (bloomMightIntersect left right).map fun has => (has, has)

structure UpdateMapEntry where
  key : String
  value : Option String
  deriving DecidableEq

structure UpdateMap where
  updateEntries : List UpdateMapEntry
  replace : Bool
  deriving DecidableEq

structure BasePath where
  id : Nat
  name : Option String
  isDatasetRoot : Bool
  path : String
  deriving DecidableEq

/-- `Operation`, each variant with the fields the conflict checks read. -/
inductive Operation where
  | append
  | delete (updatedFragments : List Fragment) (deletedFragmentIds : List Nat)
  | overwrite (configUpsertValues : Option (List (String × String)))
  | createIndex (newIndices removedIndices : List IndexMetadata)
  | rewrite (groups : List RewriteGroup) (fragReuseIndex : Option IndexMetadata)
  | dataReplacement (replacements : List DataReplacementGroup)
  | dataOverlay (groups : List DataOverlayGroup)
  | merge (fragments : List Fragment)
  | restore
  | reserveFragments
  | update (removedFragmentIds : List Nat) (updatedFragments newFragments : List Fragment)
      (fieldsModified : List Nat) (mergedGenerations : List MergedGeneration)
      (updateMode : Option UpdateMode) (insertedRowsFilter : Option KeyExistenceFilter)
  | project
  | updateConfig (configUpdates tableMetadataUpdates schemaMetadataUpdates : Option UpdateMap)
      (fieldMetadataUpdates : List (Int × UpdateMap))
  | updateMemWalState (mergedGenerations : List MergedGeneration)
  | clone
  | updateBases (newBases : List BasePath)
  deriving DecidableEq

structure Transaction where
  readVersion : Nat
  operation : Operation
  deriving DecidableEq

/-- Old fragment ids of a rewrite, in the `flat_map` order of the source. -/
def rewrittenFragmentIds (groups : List RewriteGroup) : List Nat :=
  groups.flatMap fun group => group.oldFragments.map Fragment.id

namespace Operation

def getUpsertConfigKeys : Operation → List String
  | .overwrite (some upsertValues) => upsertValues.map Prod.fst
  | .updateConfig (some configUpdates) _ _ _ =>
    configUpdates.updateEntries.filterMap fun entry =>
      if entry.value.isSome then some entry.key else none
  | _ => []

def getDeleteConfigKeys : Operation → List String
  | .updateConfig (some configUpdates) _ _ _ =>
    configUpdates.updateEntries.filterMap fun entry =>
      if entry.value.isNone then some entry.key else none
  | _ => []

/-- `upsert_key_conflict`: either side upserts a key the other upserts or deletes. -/
def upsertKeyConflict (self other : Operation) : Bool :=
  self.getUpsertConfigKeys.any (fun key =>
      other.getUpsertConfigKeys.contains key || other.getDeleteConfigKeys.contains key) ||
    other.getUpsertConfigKeys.any (fun key =>
      self.getUpsertConfigKeys.contains key || self.getDeleteConfigKeys.contains key)

/-- `update_maps_conflict`: two present maps conflict when either replaces the
whole map or they share a key. -/
def updateMapsConflict : Option UpdateMap → Option UpdateMap → Bool
  | some left, some right =>
    left.replace || right.replace ||
      right.updateEntries.any fun entry => (left.updateEntries.map UpdateMapEntry.key).contains entry.key
  | _, _ => false

def modifiesSameMetadata : Operation → Operation → Bool
  | .updateConfig _ tableMetadataUpdates schemaMetadataUpdates fieldMetadataUpdates,
    .updateConfig _ otherTableMetadata otherSchemaMetadata otherFieldMetadata =>
    updateMapsConflict tableMetadataUpdates otherTableMetadata ||
      (schemaMetadataUpdates.isSome && otherSchemaMetadata.isSome) ||
      (!fieldMetadataUpdates.isEmpty && !otherFieldMetadata.isEmpty &&
        fieldMetadataUpdates.any fun entry => (otherFieldMetadata.map Prod.fst).contains entry.1)
  | _, _ => false

end Operation

end Lance.Commit
