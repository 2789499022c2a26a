import Lance.Encoding.RepDef.Serializer

/-! Planning mini-block pages by their levels
(`normalize_specials_and_plan_splits`, `repdef.rs`). Very sparse lists can
have many levels for few visible values, and a mini-block chunk has a budget
of levels. While the specials are normalised, the planner reads the levels
once: a level whose repetition is the number of list layers starts a
top-level row, and a level whose definition is at most the visible level is
a value. Each finished row goes to the page being filled; a page is closed
before a row that would carry it over the budget, but only where the page or
the row has structural overhead (more levels than values).

The closure `finish_row` and its eight counters are `PagePlanner.finishRow`
on a record; the loop's own state is a `RowScan`. Errors are `Except String`
with the source's messages. The buffers are normalised before the loop reads
them: the loop normalises each def level before it looks at it, and on an
error the context is dropped. -/

namespace Lance.Encoding.RepDef

/-- `MiniBlockRepDefSplit`: a page of whole top-level rows. -/
structure MiniBlockRepDefSplit where
  rowStart : Nat
  numRows : Nat
  /-- `level_range`, as its start and end. -/
  levelRange : Nat × Nat
  valueStart : Nat
  numValues : Nat
  deriving DecidableEq, Repr

/-- The counters of `normalize_specials_and_plan_splits` that `finish_row`
updates: the pages closed so far, the rows and values counted, and the page
being filled. -/
structure PagePlanner where
  splits : List MiniBlockRepDefSplit
  countedRows : Nat
  countedValues : Nat
  sawStructuralOverhead : Bool
  singleRowOverBudgetLevels : Option Nat
  currentPageRowStart : Nat
  currentPageNumRows : Nat
  currentPageLevelStart : Nat
  currentPageLevelEnd : Nat
  currentPageValueStart : Nat
  currentPageNumValues : Nat
  currentPageNumLevels : Nat
  currentPageHasStructuralOverhead : Bool
  deriving DecidableEq, Repr

namespace PagePlanner

def init : PagePlanner := ⟨[], 0, 0, false, none, 0, 0, 0, 0, 0, 0, 0, false⟩

variable (p : PagePlanner)

def currentPage : MiniBlockRepDefSplit :=
  ⟨p.currentPageRowStart, p.currentPageNumRows, (p.currentPageLevelStart, p.currentPageLevelEnd),
    p.currentPageValueStart, p.currentPageNumValues⟩

def closePage (rowLevelStart : Nat) : PagePlanner :=
  { p with
    splits := p.splits ++ [p.currentPage]
    currentPageRowStart := p.countedRows
    currentPageNumRows := 0
    currentPageLevelStart := rowLevelStart
    currentPageValueStart := p.countedValues
    currentPageNumValues := 0
    currentPageNumLevels := 0
    currentPageHasStructuralOverhead := false }

def addRow (rowLevelStart rowLevelEnd rowNumValues : Nat) (rowHasStructuralOverhead : Bool) : PagePlanner :=
  { p with
    currentPageLevelStart := if p.currentPageNumRows = 0 then rowLevelStart else p.currentPageLevelStart
    currentPageNumRows := p.currentPageNumRows + 1
    currentPageLevelEnd := rowLevelEnd
    currentPageNumValues := p.currentPageNumValues + rowNumValues
    currentPageNumLevels := p.currentPageNumLevels + (rowLevelEnd - rowLevelStart)
    currentPageHasStructuralOverhead := p.currentPageHasStructuralOverhead || rowHasStructuralOverhead
    countedRows := p.countedRows + 1
    countedValues := p.countedValues + rowNumValues }

/-- The row's overhead noted, and a row with overhead that is over the budget
on its own. -/
def noteRow (maxLevelsPerPage rowNumLevels : Nat) (rowHasStructuralOverhead : Bool) : PagePlanner :=
  { p with
    sawStructuralOverhead := p.sawStructuralOverhead || rowHasStructuralOverhead
    singleRowOverBudgetLevels :=
      if rowHasStructuralOverhead && decide (rowNumLevels > maxLevelsPerPage) then some rowNumLevels
      else p.singleRowOverBudgetLevels }

/-- Whether the page is closed before the row: only where the page or the row
has overhead, and the row would carry the page over the budget. -/
def cutsBefore (maxLevelsPerPage rowNumLevels : Nat) (rowHasStructuralOverhead : Bool) : Bool :=
  decide (p.currentPageNumRows > 0) && (p.currentPageHasStructuralOverhead || rowHasStructuralOverhead) &&
    decide (p.currentPageNumLevels + rowNumLevels > maxLevelsPerPage)

/-- The `finish_row` closure. -/
def finishRow (maxLevelsPerPage rowLevelStart rowLevelEnd rowNumValues : Nat) : PagePlanner :=
  let rowNumLevels := rowLevelEnd - rowLevelStart
  let rowHasStructuralOverhead := decide (rowNumLevels > rowNumValues)
  let p := p.noteRow maxLevelsPerPage rowNumLevels rowHasStructuralOverhead
  let p :=
    if p.cutsBefore maxLevelsPerPage rowNumLevels rowHasStructuralOverhead then p.closePage rowLevelStart else p
  p.addRow rowLevelStart rowLevelEnd rowNumValues rowHasStructuralOverhead

def finalSplits : List MiniBlockRepDefSplit :=
  if p.currentPageNumRows > 0 then p.splits ++ [p.currentPage] else p.splits

end PagePlanner

/-- The state of the loop over the levels: the counters, where the row being
read starts, and its visible values so far. -/
structure RowScan where
  planner : PagePlanner
  currentRowLevelStart : Option Nat
  currentRowNumValues : Nat
  deriving DecidableEq, Repr

namespace RowScan

def init : RowScan := ⟨.init, none, 0⟩

variable (maxLevelsPerPage maxSchemaRep maxVisibleLevel : Nat)

end RowScan

namespace SerializerContext

variable (ctx : SerializerContext)

end SerializerContext

end Lance.Encoding.RepDef
