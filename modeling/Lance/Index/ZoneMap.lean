import Lance.Index.Zoned
import Lance.Index.SargableQuery
import Lance.Library.ExceptRun

/-! The zone map index (`scalar/zonemap.rs`): per zone, the least and the
greatest value, the number of nulls and of NaNs, computed by the statistics
accumulator of `arrow-stats`, which skips nulls and NaNs for the extrema. A
zone that held a NaN stores NaN as its maximum. `evaluate_zone_against_query`
decides from these whether a zone may hold a matching row, and `search`
returns the ranges of the zones it keeps, except that `IsNull` is answered
exactly from the persisted bitmap of null rows.

The column's values are a linear order `α`, Arrow's total order; what else
the evaluation reads of a value (NaN, the string of a string scalar) comes
with the column type. -/

namespace Lance.Index

namespace ZoneMap

variable {α : Type} [LinearOrder α] (column : ColumnType α)

/-- The state of `StatisticsAccumulator` the zone map reads. -/
structure StatisticsAccumulator (α : Type) where
  min : Option α
  max : Option α
  nullCount : Nat
  nanCount : Nat

/-- `StatisticsAccumulator::new`, and the state `reset` returns to. -/
def StatisticsAccumulator.starting : StatisticsAccumulator α := ⟨none, none, 0, 0⟩

def updateMin (current : Option α) : Option α → Option α
  | none => current
  | some newMin => some (match current with
    | some cur => if cur ≤ newMin then cur else newMin
    | none => newMin)

def updateMax (current : Option α) : Option α → Option α
  | none => current
  | some newMax => some (match current with
    | some cur => if newMax ≤ cur then cur else newMax
    | none => newMax)

/-- The values `find_min_max` compares: neither null nor NaN. -/
def extremaCandidates (values : List (Option α)) : List α :=
  (values.filterMap id).filter fun v => !column.isNan v

/-- `StatisticsAccumulator::update` on one array of the column. -/
def update (acc : StatisticsAccumulator α) (values : List (Option α)) : StatisticsAccumulator α :=
  let candidates := extremaCandidates column values
  { min := updateMin acc.min candidates.min?
    max := updateMax acc.max candidates.max?
    nullCount := acc.nullCount + values.countP Option.isNone
    nanCount := acc.nanCount + (values.filterMap id).countP column.isNan }

structure ZoneMapStatistics (α : Type) where
  min : ScalarValue α
  max : ScalarValue α
  nullCount : Nat
  nanCount : Nat
  bound : ZoneBound

def statCountToU32 (name : String) (value : Nat) : Except String Nat :=
  if value < 2 ^ 32 then .ok value
  else .error (name ++ " value " ++ toString value ++ " exceeds the supported UInt32 range")

/-- `scalar_value_from_stat`: the statistic, or null when there is none. -/
def scalarValueFromStat : Option α → ScalarValue α
  | some v => v
  | none => ⊥

/-- `max_value_from_stats`: NaN for a zone that held one, else the statistic. -/
def maxValueFromStats (max : Option α) (nanCount : Nat) : ScalarValue α :=
  match column.nanScalar with
  | some nan => if 0 < nanCount then nan else scalarValueFromStat max
  | none => scalarValueFromStat max

/-- `ZoneMapProcessor::finish_zone`. -/
def finishZone (acc : StatisticsAccumulator α) (bound : ZoneBound) : Except String (ZoneMapStatistics α) := do
  let nanCount ← statCountToU32 "nan_count" acc.nanCount
  let nullCount ← statCountToU32 "null_count" acc.nullCount
  pure ⟨scalarValueFromStat acc.min, maxValueFromStats column acc.max nanCount, nullCount, nanCount, bound⟩

def zoneMapProcessor : ZoneProcessor (StatisticsAccumulator α) α (ZoneMapStatistics α) where
  processChunk := update column
  finishZone := finishZone column
  reset := fun _ => .starting

/-! ### Evaluating a zone -/

def scalarIsNan : ScalarValue α → Bool
  | ⊥ => false
  | (v : α) => column.isNan v

def zoneHasFiniteMin (zone : ZoneMapStatistics α) : Bool := !(zone.min = ⊥ || scalarIsNan column zone.min)

def zoneHasFiniteExtrema (zone : ZoneMapStatistics α) : Bool :=
  zoneHasFiniteMin column zone && !(zone.max = ⊥ || scalarIsNan column zone.max)

/-- The upper-bound half of the `Range` arm, given the lower-bound check; an
upper bound of NaN answers on its own. -/
def rangeEndCheck (zone : ZoneMapStatistics α) (finish : Bound (ScalarValue α)) (startCheck : Bool) : Bool :=
  match finish with
  | .unbounded => startCheck
  | .included e =>
    if scalarIsNan column e then decide (0 < zone.nanCount) || decide (zone.min ≤ e)
    else startCheck && decide (zone.min ≤ e)
  | .excluded e => if scalarIsNan column e then true else startCheck && decide (zone.min < e)

/-- The `Range` arm: a zone without a finite minimum is ruled out first; a
lower bound of NaN answers on its own; a NaN maximum passes an included
lower bound. -/
def evaluateRange (zone : ZoneMapStatistics α) (start finish : Bound (ScalarValue α)) : Bool :=
  if !zoneHasFiniteMin column zone then false
  else
    match start with
    | .unbounded => rangeEndCheck column zone finish true
    | .included s =>
      if scalarIsNan column s then decide (0 < zone.nanCount)
      else rangeEndCheck column zone finish (scalarIsNan column zone.max || decide (s ≤ zone.max))
    | .excluded s =>
      if scalarIsNan column s then false else rangeEndCheck column zone finish (decide (s < zone.max))

def evaluateIsInValue (zone : ZoneMapStatistics α) (value : ScalarValue α) : Bool :=
  if value = ⊥ then decide (0 < zone.nullCount)
  else if column.nanScalar.isSome then
    if scalarIsNan column value then decide (0 < zone.nanCount)
    else if !zoneHasFiniteMin column zone then false
    else decide (zone.min ≤ value) && decide (value ≤ zone.max)
  else zoneHasFiniteExtrema column zone && decide (zone.min ≤ value) && decide (value ≤ zone.max)

def evaluateLikePrefix (zone : ZoneMapStatistics α) : ScalarValue α → Bool
  | ⊥ => true
  | (pfx : α) =>
    match column.utf8 pfx with
    | none => true
    | some pfxStr =>
      if pfxStr = "" then true
      else if !decide ((pfx : ScalarValue α) ≤ zone.max) then false
      else match computeNextPrefix pfxStr with
        | some next => decide (zone.min < (column.withUtf8 pfx next : ScalarValue α))
        | none => true

def evaluateZoneAgainstQuery (zone : ZoneMapStatistics α) : SargableQuery α → Except String Bool
  | .isNull => .ok (decide (0 < zone.nullCount))
  | .equals target =>
    if target = ⊥ then .ok (decide (0 < zone.nullCount))
    else if scalarIsNan column target then .ok (decide (0 < zone.nanCount))
    else if !zoneHasFiniteMin column zone then .ok false
    else .ok (decide (zone.min ≤ target) && decide (target ≤ zone.max))
  | .range start finish => .ok (evaluateRange column zone start finish)
  | .isIn values => .ok (values.any (evaluateIsInValue column zone))
  | .fullTextSearch => .error "full text search is not supported for zonemap indexes"
  | .likePrefix pfx => .ok (evaluateLikePrefix column zone pfx)

/-! ### The index -/

/-- `ZoneMapIndex`: the zones, and the null rows when the index persisted them. -/
structure ZoneMapIndex (α : Type) where
  zones : List (ZoneMapStatistics α)
  nullRows : Option (Finset Nat)

/-- `ZoneMapIndexBuilder::train`: zones by the shared trainer, and the complete null bitmap. -/
def trainZoneMapIndex (rowsPerZone : Nat) (batches : List (List (Option α × UInt64))) :
    Except String (ZoneMapIndex α) := do
  let zoneCapacity ← ZoneTrainer.new rowsPerZone
  let (zones, nullRows) ← ZoneTrainer.train (zoneMapProcessor column) zoneCapacity .starting batches
  pure ⟨zones, some (nullRows.map UInt64.toNat).toFinset⟩

/-- `ZoneMapIndex::search`. -/
def ZoneMapIndex.search (index : ZoneMapIndex α) (query : SargableQuery α) : Except String SearchResult :=
  match query, index.nullRows with
  | .isNull, some nullRows => .ok (.exact (.ofRows nullRows))
  | _, _ => searchZones (·.bound) (fun zone => evaluateZoneAgainstQuery column zone query) index.zones

def matchingRows (batches : List (List (Option α × UInt64))) (query : SargableQuery α) : Set Nat :=
  {row | ∃ batch ∈ batches, ∃ value rowAddr, (value, rowAddr) ∈ batch ∧ rowAddr.toNat = row ∧
    query.Satisfies column.utf8 value}

/-! ### Zones without a finite value -/

def NanOrNull (value : Option α) : Prop := ∀ v, value = some v → column.isNan v = true

omit [LinearOrder α] in
theorem extremaCandidates_eq_nil {values : List (Option α)} (nan_or_null : ∀ value ∈ values, NanOrNull column value) :
    extremaCandidates column values = [] := by
  rw [extremaCandidates, List.filter_eq_nil_iff]
  intro v member
  obtain ⟨value, value_member, same⟩ := List.mem_filterMap.mp member
  simp [nan_or_null value value_member v same]

/-- Over null and NaN rows the accumulator never gets a minimum, and the zone
it summarises has a null minimum. -/
theorem zoneMapProcessor_keeps_no_min :
    (zoneMapProcessor column).Keeps (fun acc => acc.min = none) (fun zone => zone.min = ⊥) (NanOrNull column) where
  reset := fun _ => rfl
  processChunk := by
    intro acc values no_min nan_or_null
    simp [zoneMapProcessor, update, extremaCandidates_eq_nil column nan_or_null, updateMin, no_min]
  finishZone := by
    intro acc bound zone no_min finished
    simp only [zoneMapProcessor, finishZone] at finished
    obtain ⟨nanCount, _, finished⟩ := Library.bind_eq_ok.mp finished
    obtain ⟨nullCount, _, finished⟩ := Library.bind_eq_ok.mp finished
    cases finished
    simp [no_min, scalarValueFromStat]

theorem min_eq_bot_of_trained {rowsPerZone : Nat} {batches : List (List (Option α × UInt64))}
    (nan_or_null : ∀ batch ∈ batches, ∀ row ∈ batch, NanOrNull column row.1) {index : ZoneMapIndex α}
    (trained : trainZoneMapIndex column rowsPerZone batches = .ok index) :
    ∀ zone ∈ index.zones, zone.min = ⊥ := by
  unfold trainZoneMapIndex at trained
  obtain ⟨zoneCapacity, _, trained⟩ := Library.bind_eq_ok.mp trained
  obtain ⟨⟨zones, nullRows⟩, ran, built⟩ := Library.bind_eq_ok.mp trained
  cases built
  exact ZoneTrainer.train_good (zoneMapProcessor_keeps_no_min column) nan_or_null ran

theorem evaluateRange_of_min_eq_bot {zone : ZoneMapStatistics α} (no_min : zone.min = ⊥)
    (start finish : Bound (ScalarValue α)) : evaluateRange column zone start finish = false := by
  simp [evaluateRange, zoneHasFiniteMin, no_min]

/-- A zone map over rows that are all NaN answers every range query with no
row, although a NaN row lies in every range that reaches NaN, the greatest
value of the order: the zones' minimum is null, and the `Range` arm rules out
a zone without a finite minimum before it looks at NaN. -/
theorem search_range_drops_nan_rows {nan : α} {rowsPerZone : Nat}
    {batches : List (List (Option α × UInt64))} (all_nan : ∀ batch ∈ batches, ∀ row ∈ batch, row.1 = some nan)
    (nan_isNan : column.isNan nan = true) {index : ZoneMapIndex α}
    (trained : trainZoneMapIndex column rowsPerZone batches = .ok index)
    {start finish : Bound (ScalarValue α)}
    (satisfied : (SargableQuery.range start finish).Satisfies column.utf8 (some nan))
    {batch : List (Option α × UInt64)} {rowAddr : UInt64} (batch_member : batch ∈ batches)
    (row_member : (some nan, rowAddr) ∈ batch) :
    index.search column (.range start finish) = .ok (.atMost (.ofRows ∅)) ∧
      ¬ (SearchResult.atMost (.ofRows ∅)).Agrees (matchingRows column batches (.range start finish)) := by
  have nan_or_null : ∀ batch ∈ batches, ∀ row ∈ batch, NanOrNull column row.1 := by
    intro batch batch_member row row_member v same
    rw [all_nan batch batch_member row row_member, Option.some.injEq] at same
    rw [← same]
    exact nan_isNan
  have no_min := min_eq_bot_of_trained column nan_or_null trained
  refine ⟨?_, fun agrees => ?_⟩
  · apply searchZones_of_forall_false
    intro zone member
    simp [evaluateZoneAgainstQuery, evaluateRange_of_min_eq_bot column (no_min zone member)]
  · have kept := SearchResult.agrees_atMost_iff.mp agrees rowAddr.toNat
      ⟨batch, batch_member, some nan, rowAddr, row_member, rfl, satisfied⟩
    simp at kept

def nanTopColumn : ColumnType (WithTop ℤ) := ⟨fun v => decide (v = ⊤), some ⊤, fun _ => none, fun v _ => v⟩

theorem search_range_drops_nan_rows_at_one_nan :
    ((∀ batch ∈ [[((some ⊤ : Option (WithTop ℤ)), (0 : UInt64))]], ∀ row ∈ batch, row.1 = some ⊤) ∧
      nanTopColumn.isNan ⊤ = true ∧
      trainZoneMapIndex nanTopColumn 1 [[(some ⊤, 0)]] =
        .ok ⟨[⟨⊥, ((⊤ : WithTop ℤ) : ScalarValue (WithTop ℤ)), 0, 1, ⟨0, 0, 1⟩⟩], some ∅⟩ ∧
      (SargableQuery.range (.included (((0 : ℤ) : WithTop ℤ) : ScalarValue (WithTop ℤ))) .unbounded).Satisfies
        nanTopColumn.utf8 (some ⊤) ∧
      [((some ⊤ : Option (WithTop ℤ)), (0 : UInt64))] ∈ [[((some ⊤ : Option (WithTop ℤ)), (0 : UInt64))]] ∧
      ((some ⊤ : Option (WithTop ℤ)), (0 : UInt64)) ∈ [((some ⊤ : Option (WithTop ℤ)), (0 : UInt64))]) ∧
    ((⟨[⟨⊥, ((⊤ : WithTop ℤ) : ScalarValue (WithTop ℤ)), 0, 1, ⟨0, 0, 1⟩⟩], some ∅⟩ : ZoneMapIndex (WithTop ℤ)).search
        nanTopColumn (.range (.included (((0 : ℤ) : WithTop ℤ) : ScalarValue (WithTop ℤ))) .unbounded) =
        .ok (.atMost (.ofRows ∅)) ∧
      ¬ (SearchResult.atMost (.ofRows ∅)).Agrees (matchingRows nanTopColumn [[(some ⊤, 0)]]
        (.range (.included (((0 : ℤ) : WithTop ℤ) : ScalarValue (WithTop ℤ))) .unbounded))) := by
  have all_nan : ∀ batch ∈ [[((some ⊤ : Option (WithTop ℤ)), (0 : UInt64))]], ∀ row ∈ batch, row.1 = some ⊤ := by
    simp
  have satisfied : (SargableQuery.range (.included (((0 : ℤ) : WithTop ℤ) : ScalarValue (WithTop ℤ)))
      .unbounded).Satisfies nanTopColumn.utf8 (some ⊤) :=
    ⟨(by decide : ((0 : ℤ) : WithTop ℤ) ≤ ⊤), trivial⟩
  have trained : trainZoneMapIndex nanTopColumn 1 [[(some ⊤, 0)]] =
      .ok ⟨[⟨⊥, ((⊤ : WithTop ℤ) : ScalarValue (WithTop ℤ)), 0, 1, ⟨0, 0, 1⟩⟩], some ∅⟩ := rfl
  exact ⟨⟨all_nan, rfl, trained, satisfied, List.mem_singleton_self _, List.mem_singleton_self _⟩,
    search_range_drops_nan_rows nanTopColumn all_nan rfl trained satisfied (List.mem_singleton_self _)
      (List.mem_singleton_self _)⟩

end ZoneMap

end Lance.Index
