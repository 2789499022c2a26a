import Lance.Index.SearchResult
import Lance.Library.ExceptRun
import Mathlib.Order.Interval.Finset.Nat

/-! Zone-based indexes (`scalar/zoned.rs`). `ZoneTrainer::train` reads
batches of `(value, _rowaddr)` rows and cuts them into zones of at most
`zone_capacity` rows that never span two fragments; a `ZoneProcessor`
summarises each zone when it is flushed. A zone's bound is the span of row
offsets from its first to its last row. `search_zones` answers `AtMost` with
the address range of every zone the index cannot rule out.

Addresses are `u64`: the fragment id in the high 32 bits, the row offset in
the low 32. -/

namespace Lance.Index

structure ZoneBound where
  fragmentId : UInt64
  start : UInt64
  length : Nat

/-- The operations of `ZoneProcessor` on processor state `P`, over column
values `V` (`none` for null), producing statistics `Z`. -/
structure ZoneProcessor (P V Z : Type) where
  processChunk : P → List (Option V) → P
  finishZone : P → ZoneBound → Except String Z
  reset : P → P

def fragmentOf (rowAddr : UInt64) : UInt64 := rowAddr >>> 32

/-- `RowAddress::row_offset`, widened back to `u64`. -/
def rowOffset (rowAddr : UInt64) : UInt64 := rowAddr.toUInt32.toUInt64

/-- The variables of the `train` loop besides the batch position. -/
structure ZoneTrainerState (P Z : Type) where
  processor : P
  zones : List Z
  nullRows : List UInt64
  currentFragmentId : Option UInt64
  currentZoneLen : Nat
  zoneStartOffset : Option UInt64
  zoneEndOffset : Option UInt64

namespace ZoneTrainer

variable {P V Z : Type} (proc : ZoneProcessor P V Z)

/-- `ZoneTrainer::new`: the capacity, which must be positive. -/
def new (zoneCapacity : Nat) : Except String Nat :=
  if zoneCapacity = 0 then .error "zone capacity must be greater than zero" else .ok zoneCapacity

/-- `flush_zone`: summarise the open zone over the span of its offsets and start a new one. -/
def flushZone (fragmentId : UInt64) (state : ZoneTrainerState P Z) : Except String (ZoneTrainerState P Z) :=
  let start := state.zoneStartOffset.getD 0
  let inferredEnd := state.zoneEndOffset.getD (start + (state.currentZoneLen - 1).toUInt64)
  if inferredEnd < start then .error "zone row offsets are out of order"
  else do
    let stats ← proc.finishZone state.processor ⟨fragmentId, start, (inferredEnd - start + 1).toNat⟩
    pure { state with
      zones := state.zones ++ [stats], currentZoneLen := 0, zoneStartOffset := none,
      zoneEndOffset := none, processor := proc.reset state.processor }

/-- Flush the open zone when `flush` holds. -/
def flushZoneIf (flush : Bool) (fragmentId : UInt64) (state : ZoneTrainerState P Z) :
    Except String (ZoneTrainerState P Z) :=
  if flush then flushZone proc fragmentId state else pure state

def enterFragment (fragmentId : UInt64) (state : ZoneTrainerState P Z) :
    Except String (ZoneTrainerState P Z) :=
  match state.currentFragmentId with
  | some current =>
    if current ≠ fragmentId then do
      let state ← flushZoneIf proc (0 < state.currentZoneLen) current state
      pure { state with currentFragmentId := some fragmentId }
    else pure state
  | none => pure { state with currentFragmentId := some fragmentId }

/-- Add the first `take` rows, all of one fragment, to the open zone. -/
def absorb (chunk : List (Option V × UInt64)) (firstAddr : UInt64) (state : ZoneTrainerState P Z) :
    ZoneTrainerState P Z :=
  -- the last row of a chunk; a chunk is never empty, the open zone being never full
  let lastAddr := (chunk.getLast?.map (·.2)).getD firstAddr
  { state with
    processor := proc.processChunk state.processor (chunk.map (·.1))
    nullRows := state.nullRows ++ (chunk.filter (·.1.isNone)).map (·.2)
    zoneStartOffset := state.zoneStartOffset <|> some (rowOffset firstAddr)
    zoneEndOffset := some (rowOffset (lastAddr))
    currentZoneLen := state.currentZoneLen + chunk.length }

/-- The `while batch_offset < batch.num_rows()` loop over the rows still to
read: take as many rows of the current fragment as the zone has room for, and
flush the zone once it is full. The fuel is the number of rows left. -/
def trainBatch (zoneSize : Nat) : Nat → List (Option V × UInt64) → ZoneTrainerState P Z →
    Except String (ZoneTrainerState P Z)
  | 0, _, state => pure state
  | _, [], state => pure state
  | fuel + 1, rows@((_, rowAddr) :: _), state => do
    let fragmentId := fragmentOf rowAddr
    let state ← enterFragment proc fragmentId state
    let runLen := (rows.takeWhile fun row => fragmentOf row.2 == fragmentId).length
    let take := min runLen (zoneSize - state.currentZoneLen)
    let state := absorb proc (rows.take take) rowAddr state
    let state ← flushZoneIf proc (state.currentZoneLen = zoneSize) fragmentId state
    trainBatch zoneSize fuel (rows.drop take) state

/-- `ZoneTrainer::train` over the batches of the stream: the zones and the
addresses of the null rows. -/
def train (zoneCapacity : Nat) (processor : P) (batches : List (List (Option V × UInt64))) :
    Except String (List Z × List UInt64) := do
  let start : ZoneTrainerState P Z := ⟨proc.reset processor, [], [], none, 0, none, none⟩
  let state ← batches.foldlM (fun state batch =>
    if batch = [] then pure state else trainBatch proc zoneCapacity batch.length batch state) start
  if 0 < state.currentZoneLen then
    match state.currentFragmentId with
    | some fragmentId => do
      let state ← flushZone proc fragmentId state
      pure (state.zones, state.nullRows)
    | none => pure (state.zones, state.nullRows)
  else pure (state.zones, state.nullRows)

end ZoneTrainer

/-! ### What every zone satisfies

The trainer passes every row to the processor and summarises every zone with
it. So a fact that the processor keeps over the rows, and that its summary
turns into a fact of the zone, holds of every zone `train` returns. -/

section Keeps

variable {P V Z : Type} {proc : ZoneProcessor P V Z}

/-- A processor keeps `ProcInv` of its state over rows of `RowInv`, and
summarises such a state by a zone of `ZoneInv`. -/
structure ZoneProcessor.Keeps (proc : ZoneProcessor P V Z) (ProcInv : P → Prop) (ZoneInv : Z → Prop)
    (RowInv : Option V → Prop) : Prop where
  reset : ∀ processor, ProcInv (proc.reset processor)
  processChunk : ∀ processor values, ProcInv processor → (∀ value ∈ values, RowInv value) →
    ProcInv (proc.processChunk processor values)
  finishZone : ∀ processor bound zone, ProcInv processor → proc.finishZone processor bound = .ok zone →
    ZoneInv zone

variable {ProcInv : P → Prop} {ZoneInv : Z → Prop} {RowInv : Option V → Prop}

def ZoneTrainerState.Good (ProcInv : P → Prop) (ZoneInv : Z → Prop) (state : ZoneTrainerState P Z) : Prop :=
  ProcInv state.processor ∧ ∀ zone ∈ state.zones, ZoneInv zone

namespace ZoneTrainer

theorem flushZone_good (keeps : proc.Keeps ProcInv ZoneInv RowInv) {fragmentId : UInt64}
    {state next : ZoneTrainerState P Z} (good : state.Good ProcInv ZoneInv)
    (flushed : flushZone proc fragmentId state = .ok next) : next.Good ProcInv ZoneInv := by
  unfold flushZone at flushed
  dsimp only at flushed
  split at flushed
  · cases flushed
  · obtain ⟨stats, finished, pushed⟩ := Library.bind_eq_ok.mp flushed
    cases pushed
    refine ⟨keeps.reset _, fun zone member => ?_⟩
    rcases List.mem_append.mp member with earlier | pushed
    · exact good.2 zone earlier
    · rw [List.mem_singleton.mp pushed]
      exact keeps.finishZone _ _ _ good.1 finished

theorem flushZoneIf_good (keeps : proc.Keeps ProcInv ZoneInv RowInv) {flush : Bool} {fragmentId : UInt64}
    {state next : ZoneTrainerState P Z} (good : state.Good ProcInv ZoneInv)
    (flushed : flushZoneIf proc flush fragmentId state = .ok next) : next.Good ProcInv ZoneInv := by
  unfold flushZoneIf at flushed
  split at flushed
  · exact flushZone_good keeps good flushed
  · cases flushed
    exact good

theorem enterFragment_good (keeps : proc.Keeps ProcInv ZoneInv RowInv) {fragmentId : UInt64}
    {state next : ZoneTrainerState P Z} (good : state.Good ProcInv ZoneInv)
    (entered : enterFragment proc fragmentId state = .ok next) : next.Good ProcInv ZoneInv := by
  unfold enterFragment at entered
  split at entered
  · split at entered
    · obtain ⟨flushed, flushing, set⟩ := Library.bind_eq_ok.mp entered
      cases set
      -- entering the fragment changes neither the processor nor the zones
      have flushed_good : flushed.Good ProcInv ZoneInv := flushZoneIf_good keeps good flushing
      exact flushed_good
    · cases entered
      exact good
  · cases entered
    exact good

theorem absorb_good (keeps : proc.Keeps ProcInv ZoneInv RowInv) {rows : List (Option V × UInt64)}
    (rows_good : ∀ row ∈ rows, RowInv row.1) (take : Nat) {firstAddr : UInt64}
    {state : ZoneTrainerState P Z} (good : state.Good ProcInv ZoneInv) :
    (absorb proc (rows.take take) firstAddr state).Good ProcInv ZoneInv := by
  refine ⟨keeps.processChunk _ _ good.1 fun value member => ?_, good.2⟩
  obtain ⟨row, row_member, rfl⟩ := List.mem_map.mp member
  exact rows_good row (List.mem_of_mem_take row_member)

/-- The loop over a batch keeps the trainer's state good, by induction on its fuel. -/
theorem trainBatch_good (keeps : proc.Keeps ProcInv ZoneInv RowInv) (zoneSize : Nat) :
    ∀ (fuel : Nat) (rows : List (Option V × UInt64)) (state next : ZoneTrainerState P Z),
      (∀ row ∈ rows, RowInv row.1) → state.Good ProcInv ZoneInv →
      trainBatch proc zoneSize fuel rows state = .ok next → next.Good ProcInv ZoneInv := by
  intro fuel
  induction fuel with
  | zero =>
    intro rows state next _ good ran
    cases ran
    exact good
  | succ fuel ih =>
    intro rows state next rows_good good ran
    cases rows with
    | nil =>
      cases ran
      exact good
    | cons row rest =>
      unfold trainBatch at ran
      obtain ⟨entered, entering, ran⟩ := Library.bind_eq_ok.mp ran
      have entered_good := enterFragment_good keeps good entering
      obtain ⟨flushed, flushing, ran⟩ := Library.bind_eq_ok.mp ran
      have flushed_good := flushZoneIf_good keeps (absorb_good keeps rows_good _ entered_good) flushing
      exact ih _ _ _ (fun r member => rows_good r (List.mem_of_mem_drop member)) flushed_good ran

/-- Every zone `train` returns satisfies what the processor's summary guarantees. -/
theorem train_good (keeps : proc.Keeps ProcInv ZoneInv RowInv) {zoneCapacity : Nat} {processor : P}
    {batches : List (List (Option V × UInt64))} (rows_good : ∀ batch ∈ batches, ∀ row ∈ batch, RowInv row.1)
    {zones : List Z} {nullRows : List UInt64}
    (trained : train proc zoneCapacity processor batches = .ok (zones, nullRows)) :
    ∀ zone ∈ zones, ZoneInv zone := by
  unfold train at trained
  obtain ⟨state, ran, finished⟩ := Library.bind_eq_ok.mp trained
  have start_good : (⟨proc.reset processor, [], [], none, 0, none, none⟩ : ZoneTrainerState P Z).Good
      ProcInv ZoneInv := ⟨keeps.reset processor, by simp⟩
  have state_good : state.Good ProcInv ZoneInv := by
    refine Library.foldlM_invariant_of_mem (ZoneTrainerState.Good ProcInv ZoneInv) batches ?_ start_good ran
    intro batch batch_member before after good stepped
    split at stepped
    · cases stepped
      exact good
    · exact trainBatch_good keeps zoneCapacity _ batch before after (rows_good batch batch_member) good stepped
  -- the last zone is flushed when it has rows
  split at finished
  · split at finished
    · obtain ⟨last, flushing, returned⟩ := Library.bind_eq_ok.mp finished
      cases returned
      exact (flushZone_good keeps state_good flushing).2
    · cases finished
      exact state_good.2
  · cases finished
    exact state_good.2

end ZoneTrainer

end Keeps

/-- The row addresses `search_zones` inserts for a zone: `[start, start + length)`
from the zone's first address. -/
def ZoneBound.rowAddrs (bound : ZoneBound) : Finset Nat :=
  let zoneStartAddr := (bound.fragmentId <<< 32) + bound.start
  Finset.Ico zoneStartAddr.toNat (zoneStartAddr + bound.length.toUInt64).toNat

/-- `search_zones`: every zone that may match contributes its whole range. -/
def searchZones {Z : Type} (bound : Z → ZoneBound) (zoneMatches : Z → Except String Bool)
    (zones : List Z) : Except String SearchResult := do
  let rows ← zones.foldlM (fun rows zone => do
    let matching ← zoneMatches zone
    pure (if matching then rows ∪ (bound zone).rowAddrs else rows)) ∅
  pure (.atMost (.ofRows rows))

theorem foldlM_searchZones_of_forall_false {Z : Type} {bound : Z → ZoneBound}
    {zoneMatches : Z → Except String Bool} :
    ∀ (zones : List Z), (∀ zone ∈ zones, zoneMatches zone = .ok false) → ∀ rows : Finset Nat,
      zones.foldlM (fun rows zone => do
        let matching ← zoneMatches zone
        pure (if matching then rows ∪ (bound zone).rowAddrs else rows)) rows = .ok rows := by
  intro zones
  induction zones with
  | nil => intro _ rows; rfl
  | cons zone rest ih =>
    intro ruled_out rows
    have first : zoneMatches zone = .ok false := ruled_out zone List.mem_cons_self
    simp only [List.foldlM_cons, first]
    exact ih (fun later member => ruled_out later (List.mem_cons_of_mem _ member)) rows

theorem searchZones_of_forall_false {Z : Type} {bound : Z → ZoneBound}
    {zoneMatches : Z → Except String Bool} {zones : List Z}
    (ruled_out : ∀ zone ∈ zones, zoneMatches zone = .ok false) :
    searchZones bound zoneMatches zones = .ok (.atMost (.ofRows ∅)) := by
  unfold searchZones
  rw [foldlM_searchZones_of_forall_false zones ruled_out ∅]
  rfl

end Lance.Index
