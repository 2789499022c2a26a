import Lance.Library.SortDedup
import Lance.RowIds.Index

/-! `prep_index_chunks` walks the chunks in increasing order of the first row id
they cover and gathers each run of chunks that overlap into one cluster. What
it returns holds every chunk once, each within the span of its cluster, and the
spans come in increasing order, each ending before the next starts: two chunks
that share a row id end up in one cluster. -/

namespace Lance.RowIds

namespace RawIndexChunk

def members : RawIndexChunk → List IndexChunk
  | nonOverlapping chunk => [chunk]
  | overlapping _ chunks => chunks

def span : RawIndexChunk → UInt64 × UInt64
  | nonOverlapping chunk => chunk.coverage
  | overlapping range _ => range

@[simp] theorem members_nonOverlapping (chunk : IndexChunk) : (nonOverlapping chunk).members = [chunk] := rfl

@[simp] theorem members_overlapping (range : UInt64 × UInt64) (chunks : List IndexChunk) :
    (overlapping range chunks).members = chunks := rfl

@[simp] theorem span_nonOverlapping (chunk : IndexChunk) : (nonOverlapping chunk).span = chunk.coverage := rfl

@[simp] theorem span_overlapping (range : UInt64 × UInt64) (chunks : List IndexChunk) :
    (overlapping range chunks).span = range := rfl

end RawIndexChunk

open RawIndexChunk

/-- Prepared chunks, newest first, that hold the chunks `seen`: each chunk lies
within the span of its cluster, and each span ends before the next newer one
starts. -/
structure Clusters (pending : List RawIndexChunk) (seen : List IndexChunk) : Prop where
  perm : (pending.flatMap members).Perm seen
  nonempty : ∀ raw ∈ pending, raw.members ≠ []
  within : ∀ raw ∈ pending, ∀ chunk ∈ raw.members, raw.span.1 ≤ chunk.coverage.1 ∧ chunk.coverage.2 ≤ raw.span.2
  ordered : ∀ raw ∈ pending, raw.span.1 ≤ raw.span.2
  apart : pending.Pairwise fun newer older => older.span.2 < newer.span.1

namespace Clusters

variable {pending : List RawIndexChunk} {seen : List IndexChunk} {chunk : IndexChunk}

theorem single (ordered : chunk.coverage.1 ≤ chunk.coverage.2) : Clusters [nonOverlapping chunk] [chunk] where
  perm := by simp
  nonempty := by simp
  within := by simp
  ordered := by simpa using ordered
  apart := List.pairwise_singleton _ _

/-- A chunk that starts after the newest span ends is a cluster of its own. -/
theorem push (clusters : Clusters pending seen) (ordered : chunk.coverage.1 ≤ chunk.coverage.2)
    (after : ∀ raw ∈ pending.head?, raw.span.2 < chunk.coverage.1) :
    Clusters (nonOverlapping chunk :: pending) (seen ++ [chunk]) where
  perm := by
    rw [List.flatMap_cons, members_nonOverlapping]
    exact (List.perm_append_comm.trans (clusters.perm.append_right [chunk]))
  nonempty := by
    intro raw member
    rcases List.mem_cons.mp member with rfl | older
    · simp
    · exact clusters.nonempty raw older
  within := by
    intro raw member
    rcases List.mem_cons.mp member with rfl | older
    · simp
    · exact clusters.within raw older
  ordered := by
    intro raw member
    rcases List.mem_cons.mp member with rfl | older
    · simpa using ordered
    · exact clusters.ordered raw older
  apart := by
    refine List.Pairwise.cons (fun older member => ?_) clusters.apart
    -- the newest span ends before the chunk; every older one ends before the newest starts
    cases pending with
    | nil => simp at member
    | cons newest rest =>
      have newestEnds := after newest rfl
      rcases List.mem_cons.mp member with rfl | earlier
      · exact newestEnds
      · have beforeNewest := List.rel_of_pairwise_cons clusters.apart earlier
        have newestOrdered := clusters.ordered newest List.mem_cons_self
        exact UInt64.lt_trans beforeNewest (UInt64.lt_of_le_of_lt newestOrdered newestEnds)

/-- A chunk that starts no earlier than any chunk seen joins the newest span,
which grows to its end. -/
theorem absorb {newest : RawIndexChunk} {rest : List RawIndexChunk} (clusters : Clusters (newest :: rest) seen)
    (after : ∀ c ∈ seen, c.coverage.1 ≤ chunk.coverage.1) :
    Clusters (overlapping (newest.span.1, max chunk.coverage.2 newest.span.2) (newest.members ++ [chunk]) :: rest)
      (seen ++ [chunk]) where
  perm := by
    have held := clusters.perm
    rw [List.flatMap_cons] at held
    rw [List.flatMap_cons, members_overlapping, List.append_assoc]
    -- the joining chunk moves behind the older clusters' chunks
    refine (List.perm_append_comm.append_left newest.members).trans ?_
    rw [← List.append_assoc]
    exact held.append_right [chunk]
  nonempty := by
    intro raw member
    rcases List.mem_cons.mp member with rfl | older
    · simp
    · exact clusters.nonempty raw (List.mem_cons_of_mem _ older)
  within := by
    intro raw member
    rcases List.mem_cons.mp member with rfl | older
    · -- the newest span starts at or before every chunk seen, the joining one included
      obtain ⟨first, firstMember⟩ := List.exists_mem_of_ne_nil _ (clusters.nonempty newest List.mem_cons_self)
      have firstSeen : first ∈ seen := clusters.perm.subset (List.mem_flatMap.mpr ⟨newest, List.mem_cons_self, firstMember⟩)
      have spanStart := (clusters.within newest List.mem_cons_self first firstMember).1
      intro member joined
      rcases List.mem_append.mp joined with old | new
      · have bounds := clusters.within newest List.mem_cons_self member old
        exact ⟨bounds.1, UInt64.le_trans bounds.2 Std.right_le_max⟩
      · rw [List.mem_singleton.mp new]
        exact ⟨UInt64.le_trans spanStart (after first firstSeen), Std.left_le_max⟩
    · exact clusters.within raw (List.mem_cons_of_mem _ older)
  ordered := by
    intro raw member
    rcases List.mem_cons.mp member with rfl | older
    · exact UInt64.le_trans (clusters.ordered newest List.mem_cons_self) Std.right_le_max
    · exact clusters.ordered raw (List.mem_cons_of_mem _ older)
  apart := by
    refine List.Pairwise.cons (fun older member => ?_) (List.pairwise_cons.mp clusters.apart).2
    exact (List.pairwise_cons.mp clusters.apart).1 older member

end Clusters

/-- What the loop of `prep_index_chunks` returns once the chunks run out: its
output with the open cluster, if any, closed. -/
def PrepState.pending (state : PrepState) : List RawIndexChunk :=
  if state.currentOverlap.isEmpty then state.output
  else .overlapping state.currentRange state.currentOverlap :: state.output

/-- The loop's state after the chunks `seen`: closing the open cluster gives
clusters that hold them, and with no cluster open the newest output is a lone
chunk. -/
structure PrepInv (state : PrepState) (seen : List IndexChunk) : Prop where
  clusters : Clusters state.pending seen
  idle : state.currentOverlap = [] → ∃ last earlier, state.output = nonOverlapping last :: earlier

theorem prepInv_start {chunk : IndexChunk} (ordered : chunk.coverage.1 ≤ chunk.coverage.2) :
    PrepInv ⟨[nonOverlapping chunk], (0, 0), []⟩ [chunk] :=
  ⟨Clusters.single ordered, fun _ => ⟨chunk, [], rfl⟩⟩

/-- One chunk, no earlier than any seen: the loop never panics and keeps its
invariant. -/
theorem prepStep_inv {state : PrepState} {seen : List IndexChunk} {chunk : IndexChunk} (inv : PrepInv state seen)
    (ordered : chunk.coverage.1 ≤ chunk.coverage.2) (after : ∀ c ∈ seen, c.coverage.1 ≤ chunk.coverage.1) :
    ∃ next, prepStep state chunk = some next ∧ PrepInv next (seen ++ [chunk]) := by
  rcases eq_or_ne state.currentOverlap [] with idle | gathering
  · obtain ⟨last, earlier, output⟩ := inv.idle idle
    have pending : state.pending = nonOverlapping last :: earlier := by
      simp [PrepState.pending, idle, output]
    have clusters := pending ▸ inv.clusters
    by_cases overlaps : chunk.coverage.1 ≤ last.coverage.2
    · -- the chunk overlaps the last lone one: the two open a cluster
      refine ⟨⟨earlier, (last.coverage.1, max chunk.coverage.2 last.coverage.2), [last, chunk]⟩, ?_, ?_, ?_⟩
      · simp [prepStep, idle, output, RawIndexChunk.rangeEnd, overlaps]
      · simpa [PrepState.pending] using clusters.absorb after
      · intro opened
        simp at opened
    · refine ⟨{ state with output := nonOverlapping chunk :: state.output }, ?_, ?_, ?_⟩
      · simp [prepStep, idle, output, RawIndexChunk.rangeEnd, overlaps]
      · have pushed := clusters.push ordered (by simpa using UInt64.not_le.mp overlaps)
        simpa [PrepState.pending, idle, output] using pushed
      · exact fun _ => ⟨chunk, state.output, rfl⟩
  · have pending : state.pending = overlapping state.currentRange state.currentOverlap :: state.output := by
      simp [PrepState.pending, gathering]
    have clusters := pending ▸ inv.clusters
    by_cases overlaps : chunk.coverage.1 ≤ state.currentRange.2
    · -- the chunk joins the open cluster
      refine ⟨{ state with
          currentRange := (state.currentRange.1, max chunk.coverage.2 state.currentRange.2)
          currentOverlap := state.currentOverlap ++ [chunk] }, ?_, ?_, ?_⟩
      · simp [prepStep, gathering, overlaps]
      · simpa [PrepState.pending] using clusters.absorb after
      · intro closed
        simp at closed
    · -- the open cluster is closed and the chunk stands alone
      refine ⟨⟨nonOverlapping chunk :: overlapping state.currentRange state.currentOverlap :: state.output, (0, 0), []⟩,
        ?_, ?_, ?_⟩
      · simp [prepStep, gathering, overlaps]
      · have pushed := clusters.push ordered (by simpa using UInt64.not_le.mp overlaps)
        simpa [PrepState.pending] using pushed
      · exact fun _ => ⟨chunk, _, rfl⟩

theorem foldlM_prepStep_inv :
    ∀ (rest : List IndexChunk) {state : PrepState} {seen : List IndexChunk}, PrepInv state seen →
      (∀ c ∈ rest, c.coverage.1 ≤ c.coverage.2) → (∀ c ∈ seen, ∀ d ∈ rest, c.coverage.1 ≤ d.coverage.1) →
      rest.Pairwise (fun c d => c.coverage.1 ≤ d.coverage.1) →
      ∃ final, rest.foldlM prepStep state = some final ∧ PrepInv final (seen ++ rest)
  | [], state, seen, inv, _, _, _ => ⟨state, rfl, by simpa using inv⟩
  | chunk :: rest, state, seen, inv, ordered, after, sorted => by
    obtain ⟨next, stepped, nextInv⟩ := prepStep_inv inv (ordered chunk List.mem_cons_self)
      fun c member => after c member chunk List.mem_cons_self
    have later : ∀ c ∈ seen ++ [chunk], ∀ d ∈ rest, c.coverage.1 ≤ d.coverage.1 := by
      intro c member d other
      rcases List.mem_append.mp member with old | new
      · exact after c old d (List.mem_cons_of_mem _ other)
      · rw [List.mem_singleton.mp new]
        exact List.rel_of_pairwise_cons sorted other
    obtain ⟨final, ran, finalInv⟩ := foldlM_prepStep_inv rest nextInv
      (fun c member => ordered c (List.mem_cons_of_mem _ member)) later (List.pairwise_cons.mp sorted).2
    refine ⟨final, ?_, by simpa using finalInv⟩
    rw [List.foldlM_cons, stepped]
    exact ran

/-- Prepared chunks: they hold the given chunks between them, each within the
span of its cluster, and the spans come in increasing order, each ending before
the next starts. -/
structure Prepared (chunks : List IndexChunk) (raws : List RawIndexChunk) : Prop where
  perm : (raws.flatMap members).Perm chunks
  nonempty : ∀ raw ∈ raws, raw.members ≠ []
  within : ∀ raw ∈ raws, ∀ chunk ∈ raw.members, raw.span.1 ≤ chunk.coverage.1 ∧ chunk.coverage.2 ≤ raw.span.2
  apart : raws.Pairwise fun earlier later => earlier.span.2 < later.span.1

theorem Clusters.prepared {pending : List RawIndexChunk} {seen chunks : List IndexChunk}
    (clusters : Clusters pending seen) (shuffled : seen.Perm chunks) : Prepared chunks pending.reverse where
  perm := ((List.reverse_perm pending).flatMap_right members).trans (clusters.perm.trans shuffled)
  nonempty raw member := clusters.nonempty raw (List.mem_reverse.mp member)
  within raw member := clusters.within raw (List.mem_reverse.mp member)
  apart := List.pairwise_reverse.mpr clusters.apart

theorem max_sub_le_max_sub {a b : UInt64} :
    (0xFFFFFFFFFFFFFFFF : UInt64) - b ≤ 0xFFFFFFFFFFFFFFFF - a ↔ a ≤ b := by
  have aFits := a.toNat_lt
  have bFits := b.toNat_lt
  rw [UInt64.le_iff_toNat_le, UInt64.le_iff_toNat_le,
    UInt64.toNat_sub_of_le _ _ (UInt64.le_iff_toNat_le.mpr (by simp; omega)),
    UInt64.toNat_sub_of_le _ _ (UInt64.le_iff_toNat_le.mpr (by simp; omega))]
  simp only [UInt64.reduceToNat]
  omega

theorem pairwise_reverse_mergeSort (chunks : List IndexChunk) :
    (chunks.mergeSort fun a b =>
      decide (0xFFFFFFFFFFFFFFFF - a.coverage.1 ≤ 0xFFFFFFFFFFFFFFFF - b.coverage.1)).reverse.Pairwise
      fun c d => c.coverage.1 ≤ d.coverage.1 := by
  have sorted := Library.pairwise_mergeSort_key (fun a : IndexChunk => 0xFFFFFFFFFFFFFFFF - a.coverage.1) chunks
  exact List.pairwise_reverse.mpr (sorted.imp fun later => max_sub_le_max_sub.mp later)

/-- `prep_index_chunks` never panics on chunks whose coverage starts no later
than it ends, and prepares them. -/
theorem prepIndexChunks_prepared {chunks : List IndexChunk} (ordered : ∀ chunk ∈ chunks, chunk.coverage.1 ≤ chunk.coverage.2) :
    ∃ raws, prepIndexChunks chunks = some raws ∧ Prepared chunks raws := by
  have sorted := pairwise_reverse_mergeSort chunks
  have shuffled := (List.reverse_perm _).trans (List.mergeSort_perm chunks
    fun a b => decide (0xFFFFFFFFFFFFFFFF - a.coverage.1 ≤ 0xFFFFFFFFFFFFFFFF - b.coverage.1))
  rw [prepIndexChunks]
  dsimp only
  revert sorted shuffled
  generalize (chunks.mergeSort _).reverse = popped
  intro sorted shuffled
  cases popped with
  | nil =>
    refine ⟨[], rfl, ⟨by simpa using shuffled, by simp, by simp, List.Pairwise.nil⟩⟩
  | cons first rest =>
    have orderedAll : ∀ c ∈ first :: rest, c.coverage.1 ≤ c.coverage.2 := fun c member => ordered c (shuffled.subset member)
    obtain ⟨final, ran, finalInv⟩ := foldlM_prepStep_inv rest (prepInv_start (orderedAll first List.mem_cons_self))
      (fun c member => orderedAll c (List.mem_cons_of_mem _ member))
      (fun c member d other => by
        rw [List.mem_singleton.mp member]
        exact List.rel_of_pairwise_cons sorted other)
      (List.pairwise_cons.mp sorted).2
    refine ⟨final.pending.reverse, ?_, finalInv.clusters.prepared shuffled⟩
    simp only [ran, Option.bind_eq_bind, Option.bind_some, PrepState.pending, Option.pure_def]

end Lance.RowIds
