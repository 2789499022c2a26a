import Lance.Library.ExceptRun
import Lance.RowIds.IndexChunks
import Lance.RowIds.IndexPrep

/-! `new` and `get` of the row id index. Merging a cluster sorts the rows of its
chunks by row id and fails exactly when a row id repeats; a merged cluster holds
its chunks' rows and covers no row id outside their span. So the final chunks
hold every row and cover ranges that share no row id, and `get` finds the
address of every row id they hold and nothing for any other. -/

namespace Lance.RowIds

open Lance.Library Lance.Core
open U64Segment (Represents represents_fromSlice)
open EncodedU64Array (Bounds)
open RawIndexChunk (members span)

theorem U64Segment.Represents.nodup {segment : U64Segment} {vs : List UInt64} (represents : segment.Represents vs) :
    vs.Nodup := by
  refine List.nodup_iff_injective_getElem.mpr fun i j same => Fin.ext ?_
  have atI := represents.position_getElem i i.isLt
  have atJ := represents.position_getElem j j.isLt
  simp only at same
  rw [same, atJ] at atI
  simpa using atI.symm

theorem length_le_of_nodup {values : List UInt64} (distinct : values.Nodup) : values.length ≤ 2 ^ 64 := by
  have numbers : (values.map UInt64.toNat).Nodup := distinct.map fun _ _ same => UInt64.toNat_inj.mp same
  have within := (List.subperm_of_subset numbers fun n member => by
    obtain ⟨v, _, rfl⟩ := List.mem_map.mp member
    exact List.mem_range.mpr v.toNat_lt).length_le
  simpa using within

/-- On pairs sorted by row id, no two neighbours share a row id exactly when no
row id repeats. -/
theorem findAdjacentDuplicate_eq_none_iff :
    ∀ {values : List (UInt64 × UInt64)}, values.Pairwise (fun a b => a.1 ≤ b.1) →
      (findAdjacentDuplicate values = none ↔ (values.map Prod.fst).Nodup)
  | [], _ => by simp [findAdjacentDuplicate]
  | [_], _ => by simp [findAdjacentDuplicate]
  | first :: second :: rest, sorted => by
    have restSorted := (List.pairwise_cons.mp sorted).2
    rw [findAdjacentDuplicate]
    by_cases same : first.1 = second.1
    · simp [same]
    · -- the first row id is below every later one, so it cannot repeat
      have below : ∀ v ∈ second :: rest, first.1 ≠ v.1 := by
        intro v member
        rcases List.mem_cons.mp member with rfl | later
        · exact same
        · intro equal
          have up : first.1 ≤ second.1 := List.rel_of_pairwise_cons sorted List.mem_cons_self
          have down : second.1 ≤ v.1 := List.rel_of_pairwise_cons restSorted later
          exact same (UInt64.le_antisymm up (by rw [equal]; exact down))
      rw [if_neg (by simpa using same), findAdjacentDuplicate_eq_none_iff restSorted, List.map_cons (a := first),
        List.nodup_cons]
      simp only [List.mem_map, not_exists, not_and]
      exact ⟨fun distinct => ⟨fun v member equal => below v member equal.symm, distinct⟩, And.right⟩

/-! ### Merging a cluster -/

def sortedRows (cluster : List IndexChunk) : List (UInt64 × UInt64) :=
  (cluster.flatMap IndexChunk.rows).mergeSort fun a b => decide (a.1 ≤ b.1)

theorem perm_sortedRows (cluster : List IndexChunk) : (sortedRows cluster).Perm (cluster.flatMap IndexChunk.rows) :=
  List.mergeSort_perm _ _

theorem pairwise_sortedRows (cluster : List IndexChunk) : (sortedRows cluster).Pairwise fun a b => a.1 ≤ b.1 :=
  pairwise_mergeSort_key Prod.fst _

theorem Spans.perm_rows {chunks : List IndexChunk} {rows others : List (UInt64 × UInt64)}
    (spans : Spans chunks rows) (shuffled : rows.Perm others) : Spans chunks others :=
  ⟨spans.holds, spans.perm.trans shuffled⟩

section Merge

variable {cluster : List IndexChunk}

theorem mapM_pairs_eq (holds : ∀ chunk ∈ cluster, chunk.Holds chunk.rows) :
    cluster.mapM IndexChunk.pairs = some (cluster.map IndexChunk.rows) := by
  rw [mapM_eq_some_filterMap fun chunk member => by rw [(holds chunk member).pairs_eq]; rfl,
    List.filterMap_congr fun chunk member => (holds chunk member).pairs_eq]
  exact congrArg some (congrFun (List.filterMap_eq_map (f := IndexChunk.rows)) cluster)

/-- A cluster whose rows repeat no row id and no address merges into a chunk
that holds them, sorted by row id. -/
theorem mergeOverlappingChunks_ok (holds : ∀ chunk ∈ cluster, chunk.Holds chunk.rows)
    (nonempty : cluster.flatMap IndexChunk.rows ≠ [])
    (ids : ((cluster.flatMap IndexChunk.rows).map Prod.fst).Nodup)
    (addrs : ((cluster.flatMap IndexChunk.rows).map Prod.snd).Nodup) :
    ∃ merged, mergeOverlappingChunks cluster = pure merged ∧ merged.Holds (sortedRows cluster) := by
  have shuffled := perm_sortedRows cluster
  have sortedIds : ((sortedRows cluster).map Prod.fst).Nodup := (shuffled.map _).nodup_iff.mpr ids
  have sortedAddrs : ((sortedRows cluster).map Prod.snd).Nodup := (shuffled.map _).nodup_iff.mpr addrs
  have noRepeat := (findAdjacentDuplicate_eq_none_iff (pairwise_sortedRows cluster)).mpr sortedIds
  obtain ⟨rowIdSegment, rowIdsBuilt, rowIdsRep⟩ := represents_fromSlice sortedIds
  obtain ⟨addressSegment, addrsBuilt, addrsRep⟩ := represents_fromSlice sortedAddrs
  have sortedNonempty : (sortedRows cluster).map Prod.fst ≠ [] := by
    rw [Ne, List.map_eq_nil_iff, ← List.length_eq_zero_iff, shuffled.length_eq, List.length_eq_zero_iff]
    exact nonempty
  obtain ⟨lo, hi, bounds⟩ := EncodedU64Array.bounds_of_ne_nil sortedNonempty
  refine ⟨⟨(lo, hi), rowIdSegment, addressSegment⟩, ?_, ⟨rowIdsRep, addrsRep, bounds⟩⟩
  have values : ((cluster.map IndexChunk.rows).flatten.mergeSort fun a b => decide (a.1 ≤ b.1)) =
      sortedRows cluster := by
    rw [sortedRows, List.flatMap_def]
  simp only [mergeOverlappingChunks, mapM_pairs_eq holds, liftM_some, pure_bind, values, noRepeat, rowIdsBuilt,
    addrsBuilt, rowIdsRep.valueRange_bounds lo hi bounds]

theorem mergeOverlappingChunks_error (holds : ∀ chunk ∈ cluster, chunk.Holds chunk.rows)
    (repeated : ¬ ((cluster.flatMap IndexChunk.rows).map Prod.fst).Nodup) :
    ∃ message, mergeOverlappingChunks cluster = throw message := by
  have sortedRepeated : ¬ ((sortedRows cluster).map Prod.fst).Nodup := fun distinct =>
    repeated (((perm_sortedRows cluster).map _).nodup_iff.mp distinct)
  obtain ⟨rowId, found⟩ := Option.ne_none_iff_exists'.mp
    (mt (findAdjacentDuplicate_eq_none_iff (pairwise_sortedRows cluster)).mp sortedRepeated)
  have values : ((cluster.map IndexChunk.rows).flatten.mergeSort fun a b => decide (a.1 ≤ b.1)) =
      sortedRows cluster := by
    rw [sortedRows, List.flatMap_def]
  refine ⟨"row id index corrupt: stable row id " ++ toString rowId ++ " is live in multiple fragments", ?_⟩
  simp only [mergeOverlappingChunks, mapM_pairs_eq holds, liftM_some, pure_bind, values, found]

end Merge

/-! ### The final chunks -/

/-- The rows of the chunks of a prepared chunk. -/
def RawIndexChunk.rows (raw : RawIndexChunk) : List (UInt64 × UInt64) := raw.members.flatMap IndexChunk.rows

/-- What `new` makes of one prepared chunk: one chunk that holds the rows of its
members, within its span. -/
structure Finished (raw : RawIndexChunk) (final : IndexChunk) : Prop where
  spans : Spans [final] raw.rows
  within : raw.span.1 ≤ final.coverage.1 ∧ final.coverage.2 ≤ raw.span.2

/-- What `new` needs of a prepared chunk: its members hold their rows, it has
some, they lie within its span, and no address repeats. -/
structure RawIndexChunk.Mergeable (raw : RawIndexChunk) : Prop where
  holds : ∀ chunk ∈ raw.members, chunk.Holds chunk.rows
  nonempty : raw.members ≠ []
  within : ∀ chunk ∈ raw.members, raw.span.1 ≤ chunk.coverage.1 ∧ chunk.coverage.2 ≤ raw.span.2
  addrs : (raw.rows.map Prod.snd).Nodup

theorem RawIndexChunk.Mergeable.mem_span {raw : RawIndexChunk} (mergeable : raw.Mergeable) {row : UInt64 × UInt64}
    (member : row ∈ raw.rows) : raw.span.1 ≤ row.1 ∧ row.1 ≤ raw.span.2 := by
  obtain ⟨chunk, chunkMember, rowMember⟩ := List.mem_flatMap.mp member
  have covered := (mergeable.holds chunk chunkMember).coverage
  have idMember : row.1 ∈ chunk.rows.map Prod.fst := List.mem_map_of_mem rowMember
  have within := mergeable.within chunk chunkMember
  exact ⟨UInt64.le_trans within.1 (covered.low _ idMember), UInt64.le_trans (covered.high _ idMember) within.2⟩

theorem RawIndexChunk.Mergeable.rows_ne_nil {raw : RawIndexChunk} (mergeable : raw.Mergeable) : raw.rows ≠ [] := by
  obtain ⟨chunk, member⟩ := List.exists_mem_of_ne_nil _ mergeable.nonempty
  obtain ⟨row, rowMember⟩ := List.exists_mem_of_ne_nil _ (mergeable.holds chunk member).ne_nil
  exact List.ne_nil_of_mem (List.mem_flatMap.mpr ⟨chunk, member, rowMember⟩)

/-- A prepared chunk whose rows repeat no row id comes out of `new` as one chunk. -/
theorem finishChunks_ok :
    ∀ {raws : List RawIndexChunk}, (∀ raw ∈ raws, raw.Mergeable) →
      (∀ raw ∈ raws, (raw.rows.map Prod.fst).Nodup) →
      ∃ finals, RowIdIndex.finishChunks raws = pure finals ∧ List.Forall₂ Finished raws finals
  | [], _, _ => ⟨[], rfl, List.Forall₂.nil⟩
  | raw :: rest, mergeable, distinct => by
    obtain ⟨finals, finished, each⟩ := @finishChunks_ok rest
      (fun other member => mergeable other (List.mem_cons_of_mem _ member))
      (fun other member => distinct other (List.mem_cons_of_mem _ member))
    have here := mergeable raw List.mem_cons_self
    cases raw with
    | nonOverlapping chunk =>
      refine ⟨chunk :: finals, ?_, List.Forall₂.cons ⟨?_, ?_⟩ each⟩
      · simp only [RowIdIndex.finishChunks, finished, pure_bind]
      · simpa [RawIndexChunk.rows] using Spans.single (here.holds chunk List.mem_cons_self)
      · simp
    | overlapping range cluster =>
      obtain ⟨merged, merging, holds⟩ := mergeOverlappingChunks_ok here.holds here.rows_ne_nil
        (distinct _ List.mem_cons_self) here.addrs
      simp only [RawIndexChunk.members_overlapping] at merging
      refine ⟨merged :: finals, ?_, List.Forall₂.cons ⟨?_, ?_⟩ each⟩
      · simp only [RowIdIndex.finishChunks, merging, finished, pure_bind]
      · exact (Spans.single holds).perm_rows (perm_sortedRows cluster)
      · -- the least and greatest merged row ids are rows of the cluster
        obtain ⟨loMember, _⟩ := List.min?_eq_some_iff.mp holds.coverage.min_eq
        obtain ⟨hiMember, _⟩ := List.max?_eq_some_iff.mp holds.coverage.max_eq
        obtain ⟨lo, loRow, loId⟩ := List.mem_map.mp loMember
        obtain ⟨hi, hiRow, hiId⟩ := List.mem_map.mp hiMember
        have loSpan := here.mem_span ((perm_sortedRows cluster).subset loRow)
        have hiSpan := here.mem_span ((perm_sortedRows cluster).subset hiRow)
        rw [← loId, ← hiId]
        exact ⟨loSpan.1, hiSpan.2⟩

/-- Prepared chunks one of which repeats a row id: `new` fails with the first
error it meets. -/
theorem finishChunks_error :
    ∀ {raws : List RawIndexChunk}, (∀ raw ∈ raws, raw.Mergeable) →
      (∃ raw ∈ raws, ¬ (raw.rows.map Prod.fst).Nodup) →
      ∃ message, RowIdIndex.finishChunks raws = throw message
  | [], _, ⟨_, member, _⟩ => absurd member List.not_mem_nil
  | raw :: rest, mergeable, ⟨bad, badMember, repeated⟩ => by
    have here := mergeable raw List.mem_cons_self
    have restMergeable : ∀ other ∈ rest, other.Mergeable := fun other member =>
      mergeable other (List.mem_cons_of_mem raw member)
    by_cases fine : (raw.rows.map Prod.fst).Nodup
    · -- the repeat is further on; this prepared chunk comes out whole
      have later : ∃ raw ∈ rest, ¬ (raw.rows.map Prod.fst).Nodup := by
        rcases List.mem_cons.mp badMember with rfl | inRest
        · exact absurd fine repeated
        · exact ⟨bad, inRest, repeated⟩
      obtain ⟨message, failed⟩ := finishChunks_error restMergeable later
      cases raw with
      | nonOverlapping chunk =>
        exact ⟨message, by simp only [RowIdIndex.finishChunks, failed, exceptT_throw_bind]⟩
      | overlapping range cluster =>
        obtain ⟨merged, merging, _⟩ := mergeOverlappingChunks_ok here.holds here.rows_ne_nil fine here.addrs
        simp only [RawIndexChunk.members_overlapping] at merging
        exact ⟨message, by simp only [RowIdIndex.finishChunks, merging, failed, pure_bind, exceptT_throw_bind]⟩
    · cases raw with
      | nonOverlapping chunk =>
        -- a lone chunk never repeats a row id
        exact absurd (by simpa [RawIndexChunk.rows] using (here.holds chunk List.mem_cons_self).rowIds.nodup) fine
      | overlapping range cluster =>
        obtain ⟨message, merging⟩ := mergeOverlappingChunks_error here.holds fine
        simp only [RawIndexChunk.members_overlapping] at merging
        exact ⟨message, by simp only [RowIdIndex.finishChunks, merging, exceptT_throw_bind]⟩

/-! ### The prepared chunks of all fragments -/

section Prepared

variable {chunks : List IndexChunk} {raws : List RawIndexChunk} {rows : List (UInt64 × UInt64)}

theorem flatMap_rows (raws : List RawIndexChunk) :
    raws.flatMap RawIndexChunk.rows = (raws.flatMap members).flatMap IndexChunk.rows := by
  rw [List.flatMap_assoc]
  rfl

theorem perm_flatMap_rows (prepared : Prepared chunks raws) (spans : Spans chunks rows) :
    (raws.flatMap RawIndexChunk.rows).Perm rows := by
  rw [flatMap_rows]
  exact (prepared.perm.flatMap_right _).trans spans.perm

theorem rows_sublist {raw : RawIndexChunk} (member : raw ∈ raws) :
    raw.rows.Sublist (raws.flatMap RawIndexChunk.rows) := by
  rw [List.flatMap_def]
  exact List.sublist_flatten_of_mem (List.mem_map_of_mem member)

theorem mergeable_of_prepared (prepared : Prepared chunks raws) (spans : Spans chunks rows)
    (addrs : (rows.map Prod.snd).Nodup) : ∀ raw ∈ raws, raw.Mergeable := by
  intro raw member
  have allAddrs := ((perm_flatMap_rows prepared spans).map Prod.snd).nodup_iff.mpr addrs
  refine ⟨fun chunk chunkMember => spans.holds chunk (prepared.perm.subset (List.mem_flatMap.mpr ⟨raw, member, chunkMember⟩)),
    prepared.nonempty raw member, prepared.within raw member, allAddrs.sublist ((rows_sublist member).map _)⟩

/-- The rows repeat no row id exactly when no prepared chunk's rows do: the
spans of two prepared chunks share no row id. -/
theorem nodup_ids_iff (prepared : Prepared chunks raws) (spans : Spans chunks rows)
    (mergeable : ∀ raw ∈ raws, raw.Mergeable) :
    (rows.map Prod.fst).Nodup ↔ ∀ raw ∈ raws, (raw.rows.map Prod.fst).Nodup := by
  rw [← ((perm_flatMap_rows prepared spans).map Prod.fst).nodup_iff, List.map_flatMap, List.nodup_flatMap]
  constructor
  · exact And.left
  · intro each
    refine ⟨each, prepared.apart.imp_of_mem fun {earlier later} earlierMember laterMember before => ?_⟩
    -- a row id of the earlier one is at most its span's end, below the later one's start
    intro id inEarlier inLater
    obtain ⟨row, rowMember, rfl⟩ := List.mem_map.mp inEarlier
    obtain ⟨other, otherMember, same⟩ := List.mem_map.mp inLater
    have upTo := ((mergeable earlier earlierMember).mem_span rowMember).2
    have from_ := ((mergeable later laterMember).mem_span otherMember).1
    rw [same] at from_
    exact absurd (UInt64.lt_of_le_of_lt upTo before) (UInt64.not_lt.mpr from_)

end Prepared

/-! ### Looking a row id up -/

/-- A final chunk as `new` keys it. -/
def IndexChunk.entry (chunk : IndexChunk) : (UInt64 × UInt64) × (U64Segment × U64Segment) :=
  (chunk.coverage, (chunk.rowIds, chunk.addresses))

section Get

variable {finals : List IndexChunk} {rows : List (UInt64 × UInt64)} {Map : Type}
  {ops : RangeMapOps UInt64 (U64Segment × U64Segment) Map} {map : Map}

theorem get_of_holds {final : IndexChunk} (holds : final.Holds final.rows) {id a : UInt64} (member : (id, a) ∈ final.rows)
    (found : ops.get map id = some (final.rowIds, final.addresses)) :
    (⟨map⟩ : RowIdIndex Map).get ops id = some (some ⟨a⟩) := by
  obtain ⟨j, inside, at_⟩ := List.mem_iff_getElem.mp member
  have idsInside : j < (final.rows.map Prod.fst).length := by simpa using inside
  have small : j < 2 ^ 64 := Nat.lt_of_lt_of_le idsInside (length_le_of_nodup holds.rowIds.nodup)
  have position := holds.rowIds.position_getElem j idsInside
  have address := holds.addresses.get_eq j small
  simp only [List.getElem_map, at_] at position
  simp only [List.getElem?_map, List.getElem?_eq_getElem inside, at_, Option.map_some] at address
  simp only [RowIdIndex.get, found, position, address, Option.bind_eq_bind, Option.bind_some, Option.map_some,
    Option.pure_def]

/-- Final chunks that hold `rows` between them and cover ranges that share no
row id, keyed in a lawful range map: `get` finds the address of a row id they
hold, and nothing for any other. -/
theorem get_of_finals (lawful : ops.Lawful) (spans : Spans finals rows)
    (apart : finals.Pairwise fun a b => Apart a.coverage b.coverage)
    (built : ops.fromIter (finals.map IndexChunk.entry) = some map) (id : UInt64) :
    (∀ a, (id, a) ∈ rows → (⟨map⟩ : RowIdIndex Map).get ops id = some (some ⟨a⟩)) ∧
      (id ∉ rows.map Prod.fst → (⟨map⟩ : RowIdIndex Map).get ops id = some none) := by
  have entriesApart : (finals.map IndexChunk.entry).Pairwise fun a b => Apart a.1 b.1 :=
    List.pairwise_map.mpr apart
  have heldBy : ∀ row ∈ rows, ∃ final ∈ finals, row ∈ final.rows := fun row member =>
    List.mem_flatMap.mp (spans.perm.symm.subset member)
  constructor
  · intro a member
    obtain ⟨final, finalMember, rowMember⟩ := heldBy (id, a) member
    have holds := spans.holds final finalMember
    have covers : Covers final.coverage id :=
      ⟨holds.coverage.low id (List.mem_map_of_mem rowMember), holds.coverage.high id (List.mem_map_of_mem rowMember)⟩
    have found := lawful.get_eq_some_of_mem built entriesApart (List.mem_map_of_mem finalMember) covers
    exact get_of_holds holds rowMember found
  · intro absent
    cases lookup : ops.get map id with
    | none => simp [RowIdIndex.get, lookup]
    | some segments =>
      -- the chunk that covers the row id does not hold it
      obtain ⟨entry, entryMember, _, rfl⟩ := (lawful.get_eq_some_iff built entriesApart id segments).mp lookup
      obtain ⟨final, finalMember, rfl⟩ := List.mem_map.mp entryMember
      have holds := spans.holds final finalMember
      have notHeld : id ∉ final.rows.map Prod.fst := fun held => by
        obtain ⟨row, rowMember, rfl⟩ := List.mem_map.mp held
        exact absent (List.mem_map_of_mem (spans.perm.subset (List.mem_flatMap.mpr ⟨final, finalMember, rowMember⟩)))
      simp only [RowIdIndex.get, lookup, IndexChunk.entry, holds.rowIds.position_not_mem id notHeld,
        Option.bind_eq_bind, Option.bind_some, Option.pure_def]

end Get

/-! ### The live rows of the fragments -/

def allLiveRows (fragments : List FragmentRowIdIndex) : List (UInt64 × UInt64) :=
  fragments.flatMap FragmentRowIdIndex.liveRows

def liveRowIds (fragments : List FragmentRowIdIndex) : List UInt64 := (allLiveRows fragments).map Prod.fst

/-- The fragments of a dataset: no fragment id twice, and each fragment well formed. -/
structure WellFormedFragments (fragments : List FragmentRowIdIndex) : Prop where
  fragmentIds : (fragments.map FragmentRowIdIndex.fragmentId).Nodup
  each : ∀ frag ∈ fragments, frag.WellFormed

/-- `id` is the live row id at offset `i` of fragment `f`: a fragment with that
id holds it at that offset, which its deletion vector does not hold. -/
def LiveAt (fragments : List FragmentRowIdIndex) (id : UInt64) (f i : UInt32) : Prop :=
  ∃ frag ∈ fragments, frag.fragmentId = f ∧ (frag.rowIdSequence.iter.bind fun ids => ids[i.toNat]?) = some id ∧
    frag.deletionVector.contains i = false

theorem firstRow_add (f : UInt32) {k : Nat} (small : k < 2 ^ 32) :
    (RowAddress.firstRow f).raw + UInt64.ofNat k = (RowAddress.newFromParts f (UInt32.ofNat k)).raw := by
  have fits := f.toNat_lt
  apply UInt64.toNat_inj.mp
  rw [toNat_add_ofNat (by rw [toNat_firstRow]; omega), toNat_firstRow, RowAddress.toNat_newFromParts,
    UInt32.toNat_ofNat_of_lt' small]

theorem mem_liveRows {frag : FragmentRowIdIndex} (wellFormed : frag.WellFormed) {row : UInt64 × UInt64} :
    row ∈ frag.liveRows ↔ ∃ i : UInt32, row.2 = (RowAddress.newFromParts frag.fragmentId i).raw ∧
      (frag.rowIdSequence.iter.bind fun ids => ids[i.toNat]?) = some row.1 ∧ frag.deletionVector.contains i = false := by
  have total := wellFormed.fits
  rw [← length_segmentIds wellFormed.lenMatches] at total
  rw [liveRows_eq wellFormed.lenMatches, iter_eq_segmentIds wellFormed.lenMatches]
  simp only [offsetRows, Option.bind_some, List.mem_map, List.mem_filter, Bool.not_eq_true', Prod.exists]
  constructor
  · rintro ⟨id, k, ⟨member, kept⟩, rfl⟩
    have found := List.mem_zipIdx_iff_getElem?.mp member
    have bound : k < (segmentIds frag.rowIdSequence.segments).length := by
      by_contra outside
      rw [List.getElem?_eq_none (by omega)] at found
      cases found
    have offset : (UInt32.ofNat k).toNat = k := UInt32.toNat_ofNat_of_lt' (show k < 2 ^ 32 by omega)
    exact ⟨UInt32.ofNat k, firstRow_add _ (by omega), by rw [offset]; exact found, kept⟩
  · rintro ⟨i, address, found, kept⟩
    refine ⟨row.1, i.toNat, ⟨List.mem_zipIdx_iff_getElem?.mpr found, by rwa [UInt32.ofNat_toNat]⟩, ?_⟩
    have offset := UInt32.ofNat_toNat (x := i)
    have small := i.toNat_lt
    rw [firstRow_add _ small, offset, ← address]

theorem mem_allLiveRows {fragments : List FragmentRowIdIndex} (wellFormed : WellFormedFragments fragments)
    {row : UInt64 × UInt64} :
    row ∈ allLiveRows fragments ↔ ∃ f i, row.2 = (RowAddress.newFromParts f i).raw ∧ LiveAt fragments row.1 f i := by
  rw [allLiveRows, List.mem_flatMap]
  constructor
  · rintro ⟨frag, member, live⟩
    obtain ⟨i, address, found, kept⟩ := (mem_liveRows (wellFormed.each frag member)).mp live
    exact ⟨frag.fragmentId, i, address, frag, member, rfl, found, kept⟩
  · rintro ⟨f, i, address, frag, member, rfl, found, kept⟩
    exact ⟨frag, member, (mem_liveRows (wellFormed.each frag member)).mpr ⟨i, address, found, kept⟩⟩

theorem mem_allLiveRows_iff {fragments : List FragmentRowIdIndex} (wellFormed : WellFormedFragments fragments)
    {id : UInt64} {f i : UInt32} :
    (id, (RowAddress.newFromParts f i).raw) ∈ allLiveRows fragments ↔ LiveAt fragments id f i := by
  rw [mem_allLiveRows wellFormed]
  constructor
  · rintro ⟨f', i', address, live⟩
    obtain ⟨rfl, rfl⟩ := RowAddress.newFromParts_inj.mp (RowAddress.ext address)
    exact live
  · exact fun live => ⟨f, i, rfl, live⟩

theorem nodup_addresses_allLiveRows {fragments : List FragmentRowIdIndex} (wellFormed : WellFormedFragments fragments) :
    ((allLiveRows fragments).map Prod.snd).Nodup := by
  rw [allLiveRows, List.map_flatMap, List.nodup_flatMap]
  refine ⟨fun frag member => ?_, ?_⟩
  · have each := wellFormed.each frag member
    have fragmentFits := frag.fragmentId.toNat_lt
    have total := each.fits
    rw [← length_segmentIds each.lenMatches] at total
    rw [liveRows_eq each.lenMatches]
    exact nodup_addresses_offsetRows (by rw [toNat_firstRow]; omega)
  · have distinct := List.pairwise_map.mp wellFormed.fragmentIds
    refine distinct.imp_of_mem fun {frag other} member otherMember differ => ?_
    intro address inFrag inOther
    obtain ⟨row, rowMember, rfl⟩ := List.mem_map.mp inFrag
    obtain ⟨otherRow, otherRowMember, same⟩ := List.mem_map.mp inOther
    obtain ⟨i, address, _⟩ := (mem_liveRows (wellFormed.each frag member)).mp rowMember
    obtain ⟨j, otherAddress, _⟩ := (mem_liveRows (wellFormed.each other otherMember)).mp otherRowMember
    have parts := RowAddress.newFromParts_inj.mp (RowAddress.ext (otherAddress.symm.trans (same.trans address)))
    exact differ parts.1.symm

/-! ### Building the index -/

theorem IndexChunk.Holds.coverage_le {chunk : IndexChunk} {rows : List (UInt64 × UInt64)} (holds : chunk.Holds rows) :
    chunk.coverage.1 ≤ chunk.coverage.2 := by
  obtain ⟨id, member⟩ := List.exists_mem_of_ne_nil _ holds.coverage.ne_nil
  exact UInt64.le_trans (holds.coverage.low id member) (holds.coverage.high id member)

section Finals

variable {raws : List RawIndexChunk} {finals : List IndexChunk}

theorem spans_of_finished (finished : List.Forall₂ Finished raws finals) :
    Spans finals (raws.flatMap RawIndexChunk.rows) := by
  induction finished with
  | nil => exact Spans.nil
  | cons here _ rest => exact here.spans.append rest

theorem exists_finished_of_mem (finished : List.Forall₂ Finished raws finals) {final : IndexChunk}
    (member : final ∈ finals) : ∃ raw ∈ raws, Finished raw final := by
  induction finished with
  | nil => cases member
  | cons here _ rest =>
    rcases List.mem_cons.mp member with rfl | later
    · exact ⟨_, List.mem_cons_self, here⟩
    · obtain ⟨raw, rawMember, done⟩ := rest later
      exact ⟨raw, List.mem_cons_of_mem _ rawMember, done⟩

/-- A final chunk covers no more than its prepared chunk spans, so the final
chunks of prepared chunks that lie apart lie apart too. -/
theorem apart_of_finished (finished : List.Forall₂ Finished raws finals)
    (apart : raws.Pairwise fun earlier later => earlier.span.2 < later.span.1) :
    finals.Pairwise fun a b => Apart a.coverage b.coverage := by
  induction finished with
  | nil => exact List.Pairwise.nil
  | cons here each rest =>
    obtain ⟨before, restApart⟩ := List.pairwise_cons.mp apart
    refine List.pairwise_cons.mpr ⟨fun other otherMember => ?_, rest restApart⟩
    obtain ⟨otherRaw, otherRawMember, otherFinished⟩ := exists_finished_of_mem each otherMember
    exact apart_of_lt (UInt64.lt_of_le_of_lt here.within.2
      (UInt64.lt_of_lt_of_le (before otherRaw otherRawMember) otherFinished.within.1))

theorem ordered_of_finished (finished : List.Forall₂ Finished raws finals) :
    ∀ entry ∈ finals.map IndexChunk.entry, entry.1.1 ≤ entry.1.2 := by
  intro entry member
  obtain ⟨final, finalMember, rfl⟩ := List.mem_map.mp member
  obtain ⟨_, _, done⟩ := exists_finished_of_mem finished finalMember
  exact (done.spans.holds final (List.mem_singleton_self final)).coverage_le

end Finals

/-- What `get_of_finals` finds, read over the live rows of the fragments. -/
theorem liveAt_of_lookups {fragments : List FragmentRowIdIndex} (wellFormed : WellFormedFragments fragments)
    {Map : Type} {ops : RangeMapOps UInt64 (U64Segment × U64Segment) Map} {index : RowIdIndex Map} {id : UInt64}
    (found : ∀ a, (id, a) ∈ allLiveRows fragments → index.get ops id = some (some ⟨a⟩))
    (absent : id ∉ liveRowIds fragments → index.get ops id = some none) :
    (∀ f i, index.get ops id = some (some (RowAddress.newFromParts f i)) ↔ LiveAt fragments id f i) ∧
      (index.get ops id = some none ↔ ∀ f i, ¬ LiveAt fragments id f i) := by
  have foundLive : ∀ {f i}, LiveAt fragments id f i →
      index.get ops id = some (some (RowAddress.newFromParts f i)) :=
    fun live => found _ ((mem_allLiveRows_iff wellFormed).mpr live)
  refine ⟨fun f i => ⟨fun lookup => ?_, foundLive⟩, ⟨fun lookup f i live => ?_, fun never => absent ?_⟩⟩
  · by_cases held : id ∈ liveRowIds fragments
    · -- the row id is live somewhere, and its address names where
      obtain ⟨row, member, rfl⟩ := List.mem_map.mp held
      obtain ⟨f', i', _, live⟩ := (mem_allLiveRows wellFormed).mp member
      have same := Option.some.inj (Option.some.inj ((foundLive live).symm.trans lookup))
      obtain ⟨rfl, rfl⟩ := RowAddress.newFromParts_inj.mp same
      exact live
    · rw [absent held] at lookup
      cases lookup
  · rw [foundLive live] at lookup
    cases lookup
  · intro held
    obtain ⟨row, member, rfl⟩ := List.mem_map.mp held
    obtain ⟨f, i, _, live⟩ := (mem_allLiveRows wellFormed).mp member
    exact never f i live

theorem new_indexes_live_rows {Map : Type} {ops : RangeMapOps UInt64 (U64Segment × U64Segment) Map}
    (lawful : ops.Lawful) {fragments : List FragmentRowIdIndex} (wellFormed : WellFormedFragments fragments) :
    ((liveRowIds fragments).Nodup →
      ∃ index, RowIdIndex.new ops fragments = pure index ∧ ∀ id,
        (∀ f i, index.get ops id = some (some (RowAddress.newFromParts f i)) ↔ LiveAt fragments id f i) ∧
        (index.get ops id = some none ↔ ∀ f i, ¬ LiveAt fragments id f i)) ∧
    ((∃ id f₁ i₁ f₂ i₂, f₁ ≠ f₂ ∧ LiveAt fragments id f₁ i₁ ∧ LiveAt fragments id f₂ i₂) →
      ∃ message, RowIdIndex.new ops fragments = throw message) := by
  obtain ⟨chunks, decomposed, spans⟩ := decompose_all_spans wellFormed.each
  obtain ⟨raws, prepped, prepared⟩ :=
    prepIndexChunks_prepared fun chunk member => (spans.holds chunk member).coverage_le
  have mergeable := mergeable_of_prepared prepared spans (nodup_addresses_allLiveRows wellFormed)
  constructor
  · intro distinct
    obtain ⟨finals, finished, each⟩ := finishChunks_ok mergeable ((nodup_ids_iff prepared spans mergeable).mp distinct)
    obtain ⟨map, built⟩ := Option.isSome_iff_exists.mp (lawful.fromIter_isSome (ordered_of_finished each))
    have lookups := get_of_finals lawful ((spans_of_finished each).perm_rows (perm_flatMap_rows prepared spans))
      (apart_of_finished each prepared.apart) built
    refine ⟨⟨map⟩, ?_, fun id => liveAt_of_lookups wellFormed (lookups id).1 (lookups id).2⟩
    have entries : finals.map (fun chunk => (chunk.coverage, (chunk.rowIds, chunk.addresses))) =
        finals.map IndexChunk.entry := rfl
    simp only [RowIdIndex.new, decomposed, prepped, finished, entries, built, liftM_some, pure_bind]
  · rintro ⟨id, f₁, i₁, f₂, i₂, differ, live₁, live₂⟩
    -- the two live rows share their row id and differ in their addresses
    have repeated : ¬ (liveRowIds fragments).Nodup := fun distinct => by
      have same := List.inj_on_of_nodup_map distinct ((mem_allLiveRows_iff wellFormed).mpr live₁)
        ((mem_allLiveRows_iff wellFormed).mpr live₂) rfl
      exact differ (RowAddress.newFromParts_inj.mp (RowAddress.ext (Prod.ext_iff.mp same).2)).1
    obtain ⟨raw, member, bad⟩ : ∃ raw ∈ raws, ¬ (raw.rows.map Prod.fst).Nodup := by
      by_contra fine
      push Not at fine
      exact repeated ((nodup_ids_iff prepared spans mergeable).mpr fine)
    obtain ⟨message, failed⟩ := finishChunks_error mergeable ⟨raw, member, bad⟩
    exact ⟨message, by simp only [RowIdIndex.new, decomposed, prepped, failed, liftM_some, pure_bind,
      exceptT_throw_bind]⟩

/-- Two fragments whose chunks overlap: fragment 0 holds `0..4` with offset 1
deleted, fragment 1 holds the row ids 1 and 5. -/
def overlappingFragments : List FragmentRowIdIndex :=
  [⟨0, ⟨[.range ⟨0, 4⟩]⟩, ⟨[1]⟩⟩, ⟨1, ⟨[.sortedArray (.u64 [1, 5])]⟩, ⟨[]⟩⟩]

def clashingFragments : List FragmentRowIdIndex :=
  [⟨0, ⟨[.range ⟨0, 3⟩]⟩, ⟨[]⟩⟩, ⟨1, ⟨[.range ⟨2, 4⟩]⟩, ⟨[]⟩⟩]

def insertionOps : RangeMapOps UInt64 (U64Segment × U64Segment) (InsertionRangeMap UInt64 (U64Segment × U64Segment)) :=
  InsertionRangeMap.ops StepLite.uint64

theorem new_indexes_live_rows_at_samples :
    insertionOps.Lawful ∧
    (WellFormedFragments overlappingFragments ∧ ∃ index, RowIdIndex.new insertionOps overlappingFragments = pure index ∧
      index.get insertionOps 1 = some (some (RowAddress.newFromParts 1 0))) ∧
    (WellFormedFragments clashingFragments ∧ ∃ message, RowIdIndex.new insertionOps clashingFragments = throw message) := by
  have lawful : insertionOps.Lawful := InsertionRangeMap.lawful StepLite.uint64
  have overlapping : WellFormedFragments overlappingFragments := by
    refine ⟨by decide, ?_⟩
    simp only [overlappingFragments, List.mem_cons, List.not_mem_nil, or_false]
    rintro frag (rfl | rfl) <;> exact ⟨by decide, by decide, by decide⟩
  have clashing : WellFormedFragments clashingFragments := by
    refine ⟨by decide, ?_⟩
    simp only [clashingFragments, List.mem_cons, List.not_mem_nil, or_false]
    rintro frag (rfl | rfl) <;> exact ⟨by decide, by decide, by decide⟩
  obtain ⟨index, built, lookups⟩ := (new_indexes_live_rows lawful overlapping).1 (by decide)
  have live : LiveAt overlappingFragments 1 1 0 :=
    ⟨_, List.mem_cons_of_mem _ List.mem_cons_self, rfl, by decide, by decide⟩
  refine ⟨lawful, ⟨overlapping, index, built, ((lookups 1).1 1 0).mpr live⟩, clashing, ?_⟩
  exact (new_indexes_live_rows lawful clashing).2
    ⟨2, 0, 2, 1, 0, by decide, ⟨_, List.mem_cons_self, rfl, by decide, by decide⟩,
      ⟨_, List.mem_cons_of_mem _ List.mem_cons_self, rfl, by decide, by decide⟩⟩

/-- A fragment whose first segment counts fewer rows in its `len` than it
yields (a hole outside the range is still subtracted): `decompose_sequence` moves
the addresses on by one row where the row ids move on by two. -/
def undercountedFragments : List FragmentRowIdIndex :=
  [⟨0, ⟨[.rangeWithHoles ⟨20, 22⟩ (.u64 [5]), .range ⟨10, 11⟩]⟩, ⟨[]⟩⟩]

/-- Whatever lawful range map keys the chunks, `new` files the range `10..11`
of `undercountedFragments` under the address of offset 1. -/
theorem new_undercounted_of_lawful {Map : Type} {ops : RangeMapOps UInt64 (U64Segment × U64Segment) Map}
    (lawful : ops.Lawful) :
    ∃ index, RowIdIndex.new ops undercountedFragments = pure index ∧
      index.get ops 10 = some (some (RowAddress.newFromParts 0 1)) := by
  -- the range `10..11` comes after two row ids, and is given the address of offset 1
  let holes : IndexChunk := ⟨(20, 21), .range ⟨20, 22⟩, .range ⟨0, 2⟩⟩
  let later : IndexChunk := ⟨(10, 10), .range ⟨10, 11⟩, .range ⟨1, 2⟩⟩
  have decomposed : (undercountedFragments.mapM decomposeSequence).map List.flatten = some [holes, later] := by
    decide
  -- the chunks already come in the order of the sort, by decreasing start
  have sorted : [holes, later].mergeSort (fun a b =>
      decide (0xFFFFFFFFFFFFFFFF - a.coverage.1 ≤ 0xFFFFFFFFFFFFFFFF - b.coverage.1)) = [holes, later] :=
    List.mergeSort_of_pairwise (by decide)
  have prepped : prepIndexChunks [holes, later] = some [.nonOverlapping later, .nonOverlapping holes] := by
    rw [prepIndexChunks, sorted]
    rfl
  have ordered : ∀ entry ∈ [later.entry, holes.entry], entry.1.1 ≤ entry.1.2 := by decide
  obtain ⟨map, built⟩ := Option.isSome_iff_exists.mp (lawful.fromIter_isSome ordered)
  have apart : [later.entry, holes.entry].Pairwise fun a b => Apart a.1 b.1 :=
    List.pairwise_pair.mpr (apart_of_lt (by decide))
  have found : ops.get map 10 = some later.entry.2 :=
    lawful.get_eq_some_of_mem built apart List.mem_cons_self (by decide)
  have finished : RowIdIndex.finishChunks [.nonOverlapping later, .nonOverlapping holes] = pure [later, holes] := rfl
  have entries : [later, holes].map (fun chunk => (chunk.coverage, (chunk.rowIds, chunk.addresses))) =
      [later.entry, holes.entry] := rfl
  refine ⟨⟨map⟩, ?_, ?_⟩
  · simp only [RowIdIndex.new, decomposed, prepped, finished, entries, built, liftM_some, pure_bind]
  · simp only [RowIdIndex.get, found]
    rfl

theorem new_misplaces_undercounted_segment :
    (liveRowIds undercountedFragments).Nodup ∧ LiveAt undercountedFragments 10 0 2 ∧
      ¬ LiveAt undercountedFragments 10 0 1 ∧
      ∃ index, RowIdIndex.new insertionOps undercountedFragments = pure index ∧
        index.get insertionOps 10 = some (some (RowAddress.newFromParts 0 1)) := by
  refine ⟨by decide, ⟨_, List.mem_cons_self, rfl, by decide, by decide⟩, ?_,
    new_undercounted_of_lawful (InsertionRangeMap.lawful StepLite.uint64)⟩
  rintro ⟨frag, member, _, found, _⟩
  simp only [undercountedFragments, List.mem_cons, List.not_mem_nil, or_false] at member
  subst member
  exact absurd found (by decide)

end Lance.RowIds
