import Mathlib

/-! A list cut into consecutive chunks of a fixed size, the last one shorter,
as a stream of rows is cut into pages. The chunks are never empty and put
back together they give the list. Nothing here depends on the element type. -/

namespace Lance.Library

universe u

variable {β : Type u}

def chunksLoop (size : Nat) : Nat → List β → List (List β)
  | 0, _ | _, [] => []
  | fuel + 1, row :: rest =>
    (row :: rest).take size :: chunksLoop size fuel ((row :: rest).drop size)

/-- The chunks of `size` rows of `rows`; as many rounds as rows are enough. -/
def chunks (size : Nat) (rows : List β) : List (List β) :=
  chunksLoop size rows.length rows

example : chunks 2 [1, 2, 3, 4, 5] = [[1, 2], [3, 4], [5]] := by decide

variable {size : Nat}

theorem flatten_chunksLoop (positive : 0 < size) :
    ∀ (fuel : Nat) (rows : List β), rows.length ≤ fuel → (chunksLoop size fuel rows).flatten = rows := by
  intro fuel
  induction fuel with
  | zero =>
    intro rows enough
    have empty : rows = [] := List.eq_nil_of_length_eq_zero (by omega)
    subst empty
    rfl
  | succ fuel ih =>
    intro rows enough
    cases rows with
    | nil => rfl
    | cons row rest =>
      have shorter : ((row :: rest).drop size).length ≤ fuel := by
        simp only [List.length_drop, List.length_cons] at enough ⊢
        omega
      simp only [chunksLoop, List.flatten_cons, ih _ shorter, List.take_append_drop]

@[simp] theorem flatten_chunks (positive : 0 < size) (rows : List β) :
    (chunks size rows).flatten = rows :=
  flatten_chunksLoop positive _ rows (Nat.le_refl _)

theorem ne_nil_of_mem_chunksLoop (positive : 0 < size) :
    ∀ (fuel : Nat) (rows : List β) {chunk : List β}, chunk ∈ chunksLoop size fuel rows → chunk ≠ [] := by
  intro fuel
  induction fuel with
  | zero =>
    intro rows chunk member
    simp [chunksLoop] at member
  | succ fuel ih =>
    intro rows chunk member
    cases rows with
    | nil => simp [chunksLoop] at member
    | cons row rest =>
      rcases List.mem_cons.mp member with first | later
      · subst first
        cases size with
        | zero => omega
        | succ size => simp
      · exact ih _ later

theorem ne_nil_of_mem_chunks (positive : 0 < size) {rows : List β} {chunk : List β}
    (member : chunk ∈ chunks size rows) : chunk ≠ [] :=
  ne_nil_of_mem_chunksLoop positive _ rows member

theorem chunks_cons (size : Nat) (row : β) (rest : List β) :
    chunks size (row :: rest) = (row :: rest).take size :: chunksLoop size rest.length ((row :: rest).drop size) :=
  rfl

theorem mem_of_mem_chunks (positive : 0 < size) {rows : List β} {chunk : List β} {row : β}
    (member : chunk ∈ chunks size rows) (inside : row ∈ chunk) : row ∈ rows := by
  rw [← flatten_chunks positive rows]
  exact List.mem_flatten.mpr ⟨chunk, member, inside⟩

/-- Pieces of exactly `size` rows, put end to end, are cut back into the same pieces. -/
theorem chunksLoop_flatten (positive : 0 < size) :
    ∀ (pieces : List (List β)) (fuel : Nat), (∀ piece ∈ pieces, piece.length = size) →
      pieces.length ≤ fuel → chunksLoop size fuel pieces.flatten = pieces := by
  intro pieces
  induction pieces with
  | nil =>
    intro fuel _ _
    cases fuel <;> rfl
  | cons piece rest ih =>
    intro fuel sized enough
    have pieceSize : piece.length = size := sized piece List.mem_cons_self
    obtain ⟨row, tail, rfl⟩ : ∃ row tail, piece = row :: tail := by
      cases piece with
      | nil => simp at pieceSize; omega
      | cons row tail => exact ⟨row, tail, rfl⟩
    obtain ⟨fuel, rfl⟩ : ∃ rounds, fuel = rounds + 1 := ⟨fuel - 1, by simp at enough; omega⟩
    have restSized : ∀ piece ∈ rest, piece.length = size := fun piece member =>
      sized piece (List.mem_cons_of_mem _ member)
    simp only [List.flatten_cons, List.cons_append, chunksLoop]
    rw [← List.cons_append, List.take_left' pieceSize, List.drop_left' pieceSize,
      ih fuel restSized (by simpa using enough)]

/-- `chunks_exact`: the chunks of exactly `size` rows; a shorter tail is left out. -/
def chunksExact (size : Nat) (rows : List β) : List (List β) :=
  (chunks size rows).filter (·.length == size)

theorem length_of_mem_chunksExact {rows : List β} {chunk : List β} (member : chunk ∈ chunksExact size rows) :
    chunk.length = size := by
  simpa using (List.mem_filter.mp member).2

theorem length_flatten_of_sized : ∀ {pieces : List (List β)}, (∀ piece ∈ pieces, piece.length = size) →
    pieces.flatten.length = pieces.length * size
  | [], _ => by simp
  | piece :: rest, sized => by
    have pieceSize := sized piece List.mem_cons_self
    have restSize := length_flatten_of_sized fun other member => sized other (List.mem_cons_of_mem _ member)
    simp only [List.flatten_cons, List.length_append, List.length_cons, pieceSize, restSize]
    rw [Nat.succ_mul, Nat.add_comm]

theorem sum_take_map_length {pieces : List (List β)} (sized : ∀ piece ∈ pieces, piece.length = size) {count : Nat}
    (within : count ≤ pieces.length) : ((pieces.map List.length).take count).sum = count * size := by
  rw [← List.map_take, ← List.length_flatten,
    length_flatten_of_sized fun piece member => sized piece (List.mem_of_mem_take member), List.length_take,
    Nat.min_eq_left within]

theorem drop_flatten_of_sized {pieces : List (List β)} (sized : ∀ piece ∈ pieces, piece.length = size) {count : Nat}
    (within : count ≤ pieces.length) : pieces.flatten.drop (count * size) = (pieces.drop count).flatten := by
  rw [← sum_take_map_length sized within, List.drop_sum_flatten]

theorem take_flatten_of_sized {pieces : List (List β)} (sized : ∀ piece ∈ pieces, piece.length = size) {count : Nat}
    (within : count ≤ pieces.length) : pieces.flatten.take (count * size) = (pieces.take count).flatten := by
  rw [← sum_take_map_length sized within, List.take_sum_flatten]

theorem chunksExact_flatten (positive : 0 < size) {pieces : List (List β)}
    (sized : ∀ piece ∈ pieces, piece.length = size) : chunksExact size pieces.flatten = pieces := by
  -- every piece adds at least one row, so there is fuel enough
  have enough : ∀ pieces : List (List β), (∀ piece ∈ pieces, piece.length = size) →
      pieces.length ≤ pieces.flatten.length := by
    intro pieces
    induction pieces with
    | nil => intro _; exact Nat.le_refl 0
    | cons piece rest ih =>
      intro sized
      have pieceSize := sized piece List.mem_cons_self
      have restLength := ih fun other member => sized other (List.mem_cons_of_mem _ member)
      simp only [List.length_cons, List.flatten_cons, List.length_append]
      omega
  rw [chunksExact, chunks, chunksLoop_flatten positive pieces _ sized (enough pieces sized)]
  exact List.filter_eq_self.mpr fun piece member => by simp [sized piece member]

/-! ### Slices -/

def sliceRange (rows : List β) (start stop : Nat) : Option (List β) :=
  if start ≤ stop ∧ stop ≤ rows.length then some ((rows.drop start).take (stop - start)) else none

theorem sliceRange_append (front middle rest : List β) :
    sliceRange (front ++ middle ++ rest) front.length (front.length + middle.length) = some middle := by
  rw [sliceRange, if_pos (by simp), List.append_assoc, List.drop_left, Nat.add_sub_cancel_left, List.take_left]

theorem sliceRange_flatten_of_sized {pieces : List (List β)} (sized : ∀ piece ∈ pieces, piece.length = size)
    (rest : List β) {index : Nat} (within : index < pieces.length) :
    sliceRange (pieces.flatten ++ rest) (index * size) (index * size + size) = some pieces[index] := by
  have front : ((pieces.take index).flatten).length = index * size := by
    rw [length_flatten_of_sized fun piece member => sized piece (List.mem_of_mem_take member), List.length_take,
      Nat.min_eq_left (Nat.le_of_lt within)]
  have pieceSize : pieces[index].length = size := sized _ (List.getElem_mem within)
  have split : pieces.flatten ++ rest = (pieces.take index).flatten ++ pieces[index] ++
      ((pieces.drop (index + 1)).flatten ++ rest) := by
    have whole : pieces = pieces.take index ++ pieces[index] :: pieces.drop (index + 1) := by
      rw [← List.drop_eq_getElem_cons within, List.take_append_drop]
    calc pieces.flatten ++ rest
        = (pieces.take index ++ pieces[index] :: pieces.drop (index + 1)).flatten ++ rest :=
          congrArg (fun list => list.flatten ++ rest) whole
      _ = _ := by simp only [List.flatten_append, List.flatten_cons, List.append_assoc]
  rw [split, ← front, ← pieceSize, sliceRange_append]

theorem flatten_range_slices (size : Nat) (rows : List β) : ∀ count,
    ((List.range count).map fun index => (rows.drop (index * size)).take size).flatten = rows.take (count * size)
  | 0 => by simp
  | count + 1 => by
    rw [List.range_succ, List.map_append, List.flatten_append, flatten_range_slices size rows count, Nat.succ_mul,
      List.take_add]
    simp

end Lance.Library
