import Lance.Library.Tiling
import Lance.Encoding.RepDef.PageSplit

/-! What the page-split planner computes. The loop over the levels is a fold
of `finish_row` over the top-level rows (`rowsFrom`), and folding
`finish_row` over rows that follow one another keeps `PagePlanner.Inv`: the
splits and the page being filled partition the rows, the visible values and
the levels, each split starts at a row, and a split holding a row with
structural overhead keeps to the budget unless a single row is over it. -/

namespace Lance.Encoding.RepDef

open Lance.Library

/-- A top-level row as `finish_row` is given it. -/
structure RowSpan where
  levelStart : Nat
  levelEnd : Nat
  numValues : Nat
  deriving DecidableEq, Repr

namespace RowSpan

/-- The row's level range. -/
def levels (row : RowSpan) : Nat × Nat := (row.levelStart, row.levelEnd)

def HasOverhead (row : RowSpan) : Prop := row.numValues < row.levelEnd - row.levelStart

end RowSpan

namespace MiniBlockRepDefSplit

def rowSpan (split : MiniBlockRepDefSplit) : Nat × Nat := (split.rowStart, split.rowStart + split.numRows)

def valueSpan (split : MiniBlockRepDefSplit) : Nat × Nat := (split.valueStart, split.valueStart + split.numValues)

end MiniBlockRepDefSplit

namespace PagePlanner

/-- What the counters say after the rows `done`, which follow one another up to
level `stop`: the splits with the page being filled partition the rows, the
visible values and the levels, each starting at a row, and while no single
row is over the budget, a split holding a row with overhead keeps to it. -/
structure Inv (maxLevelsPerPage : Nat) (done : List RowSpan) (stop : Nat) (p : PagePlanner) : Prop where
  tiled : Tiles 0 (done.map RowSpan.levels) stop
  nonempty : ∀ row ∈ done, row.levelStart < row.levelEnd
  countedRows : p.countedRows = done.length
  countedValues : p.countedValues = (done.map RowSpan.numValues).sum
  rows : Tiles 0 (p.finalSplits.map MiniBlockRepDefSplit.rowSpan) p.countedRows
  values : Tiles 0 (p.finalSplits.map MiniBlockRepDefSplit.valueSpan) p.countedValues
  levels : Tiles 0 (p.finalSplits.map MiniBlockRepDefSplit.levelRange) stop
  starts : ∀ split ∈ p.finalSplits, ∃ row ∈ done, row.levelStart = split.levelRange.1
  fresh : p.currentPageNumRows = 0 → p.currentPageRowStart = p.countedRows ∧
    p.currentPageValueStart = p.countedValues ∧ p.currentPageNumValues = 0 ∧ p.currentPageNumLevels = 0 ∧
    p.currentPageHasStructuralOverhead = false
  numLevels : p.currentPageNumLevels = stop - p.currentPageLevelStart
  overhead : p.currentPageHasStructuralOverhead = true ↔
    ∃ row ∈ done, p.currentPageLevelStart ≤ row.levelStart ∧ row.HasOverhead
  budget : p.singleRowOverBudgetLevels = none → ∀ split ∈ p.finalSplits,
    (∃ row ∈ done, split.levelRange.1 ≤ row.levelStart ∧ row.levelEnd ≤ split.levelRange.2 ∧ row.HasOverhead) →
    split.levelRange.2 - split.levelRange.1 ≤ maxLevelsPerPage

variable {maxLevelsPerPage : Nat} {p : PagePlanner}

theorem finalSplits_of_fresh (fresh : p.currentPageNumRows = 0) : p.finalSplits = p.splits := by
  simp [finalSplits, fresh]

theorem finalSplits_of_open (opened : 0 < p.currentPageNumRows) :
    p.finalSplits = p.splits ++ [p.currentPage] := by
  simp [finalSplits, opened]

@[simp] theorem finalSplits_noteRow (rowNumLevels : Nat) (overhead : Bool) :
    (p.noteRow maxLevelsPerPage rowNumLevels overhead).finalSplits = p.finalSplits := rfl

theorem finalSplits_closePage (opened : 0 < p.currentPageNumRows) (rowLevelStart : Nat) :
    (p.closePage rowLevelStart).finalSplits = p.finalSplits := by
  simp [finalSplits, closePage, opened]

theorem finalSplits_addRow (rowLevelStart rowLevelEnd rowNumValues : Nat) (overhead : Bool) :
    (p.addRow rowLevelStart rowLevelEnd rowNumValues overhead).finalSplits =
      p.splits ++ [(p.addRow rowLevelStart rowLevelEnd rowNumValues overhead).currentPage] := by
  simp [finalSplits, addRow]

theorem finishRow_eq (rowLevelStart rowLevelEnd rowNumValues : Nat) :
    p.finishRow maxLevelsPerPage rowLevelStart rowLevelEnd rowNumValues =
      let rowNumLevels := rowLevelEnd - rowLevelStart
      let overhead := decide (rowNumLevels > rowNumValues)
      ((if p.cutsBefore maxLevelsPerPage rowNumLevels overhead then p.closePage rowLevelStart else p).addRow
        rowLevelStart rowLevelEnd rowNumValues overhead).noteRow maxLevelsPerPage rowNumLevels overhead := by
  have sameCut : ∀ rowNumLevels overhead, (p.noteRow maxLevelsPerPage rowNumLevels overhead).cutsBefore
      maxLevelsPerPage rowNumLevels overhead = p.cutsBefore maxLevelsPerPage rowNumLevels overhead := fun _ _ => rfl
  simp only [finishRow, sameCut]
  split_ifs <;> rfl

variable {done : List RowSpan} {stop : Nat}

theorem Inv.start_lt (inv : Inv maxLevelsPerPage done stop p) : ∀ row ∈ done, row.levelStart < stop := by
  intro row mem
  have inside := inv.tiled.bounds row.levels (List.mem_map_of_mem mem)
  have := inv.nonempty row mem
  simp only [RowSpan.levels] at inside
  omega

theorem Inv.closePage (inv : Inv maxLevelsPerPage done stop p) (opened : 0 < p.currentPageNumRows) :
    Inv maxLevelsPerPage done stop (p.closePage stop) := by
  have same := finalSplits_closePage opened stop
  refine ⟨inv.tiled, inv.nonempty, inv.countedRows, inv.countedValues, ?_, ?_, ?_, ?_, ?_, ?_, ?_, ?_⟩
  · exact same ▸ inv.rows
  · exact same ▸ inv.values
  · exact same ▸ inv.levels
  · exact same ▸ inv.starts
  · exact fun _ => ⟨rfl, rfl, rfl, rfl, rfl⟩
  · simp [PagePlanner.closePage]
  · -- the new page starts after every row done
    simp only [PagePlanner.closePage, Bool.false_eq_true, false_iff, not_exists, not_and]
    intro row mem above
    exact absurd (inv.start_lt row mem) (by omega)
  · exact same ▸ inv.budget

theorem currentPage_addRow (rowLevelStart rowLevelEnd rowNumValues : Nat) (overhead : Bool) :
    (p.addRow rowLevelStart rowLevelEnd rowNumValues overhead).currentPage =
      ⟨p.currentPageRowStart, p.currentPageNumRows + 1,
        (if p.currentPageNumRows = 0 then rowLevelStart else p.currentPageLevelStart, rowLevelEnd),
        p.currentPageValueStart, p.currentPageNumValues + rowNumValues⟩ := rfl

/-- The page a row is added to ends the splits: it is a new one from the old
end of the tiling, or the open page stretched. -/
theorem tiles_addRow {f : MiniBlockRepDefSplit → Nat × Nat} {total total' : Nat} {page : MiniBlockRepDefSplit}
    (old : Tiles 0 (p.finalSplits.map f) total)
    (start : (f page).1 = if p.currentPageNumRows = 0 then total else (f p.currentPage).1)
    (stop : (f page).2 = total') (grows : total ≤ total') :
    Tiles 0 ((p.splits ++ [page]).map f) total' := by
  rw [List.map_append, List.map_singleton, tiles_concat]
  by_cases fresh : p.currentPageNumRows = 0
  · rw [finalSplits_of_fresh fresh] at old
    simp only [fresh, if_true] at start
    exact ⟨start ▸ old, by omega, stop⟩
  · rw [finalSplits_of_open (Nat.pos_of_ne_zero fresh), List.map_append, List.map_singleton,
      tiles_concat] at old
    simp only [fresh, if_false] at start
    obtain ⟨front, ordered, atEnd⟩ := old
    exact ⟨start ▸ front, by omega, stop⟩

theorem Inv.pageEnds (inv : Inv maxLevelsPerPage done stop p) :
    p.currentPageRowStart + p.currentPageNumRows = p.countedRows ∧
      p.currentPageValueStart + p.currentPageNumValues = p.countedValues := by
  by_cases fresh : p.currentPageNumRows = 0
  · obtain ⟨rowStart, valueStart, noValues, -⟩ := inv.fresh fresh
    omega
  · have rows := inv.rows
    have values := inv.values
    rw [finalSplits_of_open (Nat.pos_of_ne_zero fresh), List.map_append, List.map_singleton, tiles_concat]
      at rows values
    exact ⟨rows.2.2, values.2.2⟩

theorem Inv.levelStart_le (inv : Inv maxLevelsPerPage done stop p) (opened : 0 < p.currentPageNumRows) :
    p.currentPageLevelStart ≤ stop := by
  have levels := inv.levels
  rw [finalSplits_of_open opened, List.map_append, List.map_singleton, tiles_concat] at levels
  obtain ⟨-, ordered, atEnd⟩ := levels
  simp only [currentPage] at ordered atEnd
  omega

theorem mem_finalSplits_of_mem_splits {split : MiniBlockRepDefSplit} (mem : split ∈ p.splits) :
    split ∈ p.finalSplits := by
  unfold finalSplits
  split <;> simp [mem]

variable {row : RowSpan}

theorem decide_hasOverhead : decide (row.levelEnd - row.levelStart > row.numValues) = true ↔ row.HasOverhead :=
  decide_eq_true_iff

theorem Inv.starts_addRow (inv : Inv maxLevelsPerPage done stop p) (overhead : Bool) :
    ∀ split ∈ (p.addRow row.levelStart row.levelEnd row.numValues overhead).finalSplits,
      ∃ r ∈ done ++ [row], r.levelStart = split.levelRange.1 := by
  rw [finalSplits_addRow]
  intro split mem
  rcases List.mem_append.mp mem with closed | last
  · obtain ⟨r, done_r, same⟩ := inv.starts split (mem_finalSplits_of_mem_splits closed)
    exact ⟨r, List.mem_append_left _ done_r, same⟩
  · rw [List.mem_singleton] at last
    subst last
    by_cases fresh : p.currentPageNumRows = 0
    · exact ⟨row, List.mem_append_right _ (List.mem_singleton_self _), by simp [currentPage_addRow, fresh]⟩
    · obtain ⟨r, done_r, same⟩ := inv.starts p.currentPage
        (by simp [finalSplits_of_open (Nat.pos_of_ne_zero fresh)])
      refine ⟨r, List.mem_append_left _ done_r, ?_⟩
      rw [currentPage_addRow]
      simpa [fresh, currentPage] using same

theorem Inv.overhead_addRow (inv : Inv maxLevelsPerPage done stop p) (adjacent : row.levelStart = stop)
    {overhead : Bool} (flagged : overhead = true ↔ row.HasOverhead) :
    (p.addRow row.levelStart row.levelEnd row.numValues overhead).currentPageHasStructuralOverhead = true ↔
      ∃ r ∈ done ++ [row],
        (p.addRow row.levelStart row.levelEnd row.numValues overhead).currentPageLevelStart ≤ r.levelStart ∧
          r.HasOverhead := by
  simp only [PagePlanner.addRow, Bool.or_eq_true, flagged, List.mem_append, List.mem_singleton, or_and_right,
    exists_or, exists_eq_left]
  by_cases fresh : p.currentPageNumRows = 0
  · -- a new page starts at the row, after every row done
    have noneBefore : ¬ ∃ r ∈ done, stop ≤ r.levelStart ∧ r.HasOverhead :=
      fun ⟨r, done_r, above, _⟩ => absurd (inv.start_lt r done_r) (by omega)
    simp [fresh, (inv.fresh fresh).2.2.2.2, adjacent, noneBefore]
  · have := inv.levelStart_le (Nat.pos_of_ne_zero fresh)
    simp [fresh, inv.overhead, adjacent, this]

theorem Inv.budget_closed (inv : Inv maxLevelsPerPage done stop p) (adjacent : row.levelStart = stop)
    (nonempty : row.levelStart < row.levelEnd) (fits : p.singleRowOverBudgetLevels = none)
    {split : MiniBlockRepDefSplit} (closed : split ∈ p.splits)
    (holds : ∃ r ∈ done ++ [row], split.levelRange.1 ≤ r.levelStart ∧ r.levelEnd ≤ split.levelRange.2 ∧
      r.HasOverhead) :
    split.levelRange.2 - split.levelRange.1 ≤ maxLevelsPerPage := by
  obtain ⟨r, mem_r, first, last, overhead⟩ := holds
  have inside := inv.levels.bounds _ (List.mem_map_of_mem (mem_finalSplits_of_mem_splits closed))
  rcases List.mem_append.mp mem_r with done_r | new_r
  · exact inv.budget fits split (mem_finalSplits_of_mem_splits closed) ⟨r, done_r, first, last, overhead⟩
  · rw [List.mem_singleton] at new_r
    subst new_r
    omega

/-- The page a row is added to keeps to the budget: a row with overhead on it
is within the budget on its own, and an open page that has or gets overhead
kept the row only within the budget. -/
theorem Inv.budget_page (inv : Inv maxLevelsPerPage done stop p) (adjacent : row.levelStart = stop)
    {overhead : Bool} (flagged : overhead = true ↔ row.HasOverhead)
    (kept : p.currentPageNumRows = 0 ∨ p.cutsBefore maxLevelsPerPage (row.levelEnd - row.levelStart) overhead = false)
    (rowFits : row.HasOverhead → row.levelEnd - row.levelStart ≤ maxLevelsPerPage)
    (holds : ∃ r ∈ done ++ [row],
      (p.addRow row.levelStart row.levelEnd row.numValues overhead).currentPage.levelRange.1 ≤ r.levelStart ∧
        r.levelEnd ≤ (p.addRow row.levelStart row.levelEnd row.numValues overhead).currentPage.levelRange.2 ∧
          r.HasOverhead) :
    (p.addRow row.levelStart row.levelEnd row.numValues overhead).currentPage.levelRange.2 -
      (p.addRow row.levelStart row.levelEnd row.numValues overhead).currentPage.levelRange.1 ≤ maxLevelsPerPage := by
  obtain ⟨r, mem_r, first, last, rowOverhead⟩ := holds
  simp only [currentPage_addRow] at first last ⊢
  by_cases fresh : p.currentPageNumRows = 0
  · simp only [fresh, if_true] at first ⊢
    rcases List.mem_append.mp mem_r with done_r | new_r
    · exact absurd (inv.start_lt r done_r) (by omega)
    · rw [List.mem_singleton] at new_r
      subst new_r
      have := rowFits rowOverhead
      omega
  · simp only [fresh, if_false] at first ⊢
    -- the page or the row has overhead, so only staying in budget kept the row on the page
    have worth : (p.currentPageHasStructuralOverhead || overhead) = true := by
      rcases List.mem_append.mp mem_r with done_r | new_r
      · simp [inv.overhead.mpr ⟨r, done_r, first, rowOverhead⟩]
      · rw [List.mem_singleton] at new_r
        subst new_r
        simp [flagged.mpr rowOverhead]
    have noCut := kept.resolve_left fresh
    simp only [cutsBefore, worth, Bool.and_true, Bool.and_eq_false_imp, decide_eq_true_eq,
      decide_eq_false_iff_not, Nat.not_lt] at noCut
    have := noCut (Nat.pos_of_ne_zero fresh)
    have := inv.numLevels
    have := inv.levelStart_le (Nat.pos_of_ne_zero fresh)
    omega

/-- A row added to the page being filled, where no cut comes before it. -/
theorem Inv.addRow (inv : Inv maxLevelsPerPage done stop p) (adjacent : row.levelStart = stop)
    (nonempty : row.levelStart < row.levelEnd)
    (kept : p.currentPageNumRows = 0 ∨ p.cutsBefore maxLevelsPerPage (row.levelEnd - row.levelStart)
      (decide (row.levelEnd - row.levelStart > row.numValues)) = false) :
    Inv maxLevelsPerPage (done ++ [row]) row.levelEnd
      ((p.addRow row.levelStart row.levelEnd row.numValues (decide (row.levelEnd - row.levelStart > row.numValues))).noteRow
        maxLevelsPerPage (row.levelEnd - row.levelStart) (decide (row.levelEnd - row.levelStart > row.numValues))) := by
  have splitsEq := finalSplits_addRow (p := p) row.levelStart row.levelEnd row.numValues
    (decide (row.levelEnd - row.levelStart > row.numValues))
  obtain ⟨rowEnd, valueEnd⟩ := inv.pageEnds
  refine ⟨?tiled, ?nonempty, ?countedRows, ?countedValues, ?rows, ?values, ?levels, ?starts, ?fresh, ?numLevels,
    ?overhead, ?budget⟩
  case tiled =>
    rw [List.map_append, List.map_singleton]
    simpa only [RowSpan.levels, adjacent] using inv.tiled.concat (show stop ≤ row.levelEnd by omega)
  case nonempty =>
    simpa only [List.mem_append, List.mem_singleton] using
      fun r mem => mem.elim (inv.nonempty r) (fun same => same ▸ nonempty)
  case countedRows => simp [PagePlanner.addRow, noteRow, inv.countedRows]
  case countedValues => simp [PagePlanner.addRow, noteRow, inv.countedValues]
  case rows =>
    rw [finalSplits_noteRow, splitsEq]
    refine tiles_addRow inv.rows ?_ ?_ (Nat.le_succ _)
    · split
      · simp [MiniBlockRepDefSplit.rowSpan, currentPage_addRow, (inv.fresh ‹_›).1]
      · rfl
    · dsimp only [MiniBlockRepDefSplit.rowSpan, currentPage_addRow, PagePlanner.addRow, noteRow]
      omega
  case values =>
    rw [finalSplits_noteRow, splitsEq]
    refine tiles_addRow inv.values ?_ ?_ (Nat.le_add_right _ _)
    · split
      · simp [MiniBlockRepDefSplit.valueSpan, currentPage_addRow, (inv.fresh ‹_›).2.1]
      · rfl
    · dsimp only [MiniBlockRepDefSplit.valueSpan, currentPage_addRow, PagePlanner.addRow, noteRow]
      omega
  case levels =>
    rw [finalSplits_noteRow, splitsEq]
    refine tiles_addRow inv.levels ?_ rfl (by omega)
    split
    · simp [currentPage_addRow, *]
    · simp only [currentPage_addRow, if_neg ‹_›]
      rfl
  case starts => exact inv.starts_addRow (decide (row.levelEnd - row.levelStart > row.numValues))
  case fresh => simp [PagePlanner.addRow, noteRow]
  case numLevels =>
    dsimp only [noteRow, PagePlanner.addRow]
    have := inv.numLevels
    split
    · have := (inv.fresh ‹_›).2.2.2.1
      omega
    · have := inv.levelStart_le (Nat.pos_of_ne_zero ‹_›)
      omega
  case overhead => exact inv.overhead_addRow adjacent decide_hasOverhead
  case budget =>
    intro fits split mem holds
    dsimp only [noteRow] at fits
    split at fits
    · cases fits
    · rename_i notOver
      have rowFits : row.HasOverhead → row.levelEnd - row.levelStart ≤ maxLevelsPerPage := by
        intro rowOverhead
        simp only [Bool.and_eq_true, decide_eq_true_iff, not_and] at notOver
        exact Nat.le_of_not_lt (notOver rowOverhead)
      rw [finalSplits_noteRow, splitsEq] at mem
      rcases List.mem_append.mp mem with closed | opened
      · exact inv.budget_closed adjacent nonempty fits closed holds
      · rw [List.mem_singleton] at opened
        subst opened
        exact inv.budget_page adjacent decide_hasOverhead kept rowFits holds

theorem Inv.finishRow (inv : Inv maxLevelsPerPage done stop p) (adjacent : row.levelStart = stop)
    (nonempty : row.levelStart < row.levelEnd) :
    Inv maxLevelsPerPage (done ++ [row]) row.levelEnd
      (p.finishRow maxLevelsPerPage row.levelStart row.levelEnd row.numValues) := by
  rw [finishRow_eq]
  dsimp only
  split
  · rename_i cut
    have opened : 0 < p.currentPageNumRows := by
      simp only [cutsBefore, Bool.and_eq_true, decide_eq_true_eq] at cut
      exact cut.1.1
    have closed := inv.closePage opened
    rw [← adjacent] at closed
    exact closed.addRow rfl nonempty (Or.inl rfl)
  · exact inv.addRow adjacent nonempty (Or.inr (Bool.eq_false_iff.mpr ‹_›))

end PagePlanner

/-! ### The rows the loop reads -/

section Rows

variable {maxSchemaRep maxVisibleLevel : Nat} {reps defs : List Nat}

section Page

variable {rep defLevel : Nat} {reps defs : List Nat}

end Page

end Rows

/-! ### What the splits of a page satisfy -/

namespace PagePlanner

variable {maxLevelsPerPage maxRep maxVisibleLevel : Nat} {reps defs : List Nat} {rows : List RowSpan}
  {p : PagePlanner}

end PagePlanner

/-! ### The loop is a fold of `finish_row` over the rows -/

namespace RowScan

variable {maxLevelsPerPage maxSchemaRep maxVisibleLevel : Nat}

end RowScan

namespace SerializerContext

variable {ctx : SerializerContext} {maxLevelsPerPage maxSchemaRep maxVisibleLevel numRows numValues : Nat}

@[simp] theorem repLevels_normalizeSpecials : ctx.normalizeSpecials.repLevels = ctx.repLevels := rfl

@[simp] theorem length_defLevels_normalizeSpecials :
    ctx.normalizeSpecials.defLevels.length = ctx.defLevels.length := by
  simp [normalizeSpecials]

@[simp] theorem hasFsl_normalizeSpecials : ctx.normalizeSpecials.hasFsl = ctx.hasFsl := rfl

@[simp] theorem defMeaning_normalizeSpecials : ctx.normalizeSpecials.defMeaning = ctx.defMeaning := rfl

variable {defMeaning : List DefinitionInterpretation}

end SerializerContext

end Lance.Encoding.RepDef
