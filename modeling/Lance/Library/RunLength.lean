import Lance.Library.WordArith
import Mathlib.Data.List.Basic

/-! Runs of equal values. A run-length encoder scans its input keeping the value
and length of the run in progress, and hands each run on when a different value
ends it and the last one after the loop; `scanRuns` is that scan, with what is
done to a run as a parameter, and `runs` the list of runs it visits, so that
every such scan is a fold over `runs`. A run too long for its length field is
cut into `pieces`: full ones and what remains. -/

namespace Lance.Library

universe u v

variable {α : Type u} {β : Type v}

def expand (entries : List (α × Nat)) : List α := entries.flatMap fun entry => List.replicate entry.2 entry.1

@[simp] theorem expand_nil : expand ([] : List (α × Nat)) = [] := rfl

@[simp] theorem expand_cons (entry : α × Nat) (entries : List (α × Nat)) :
    expand (entry :: entries) = List.replicate entry.2 entry.1 ++ expand entries := by
  simp [expand]

theorem expand_map_pair (value : α) : ∀ lengths : List Nat,
    expand (lengths.map fun length => (value, length)) = List.replicate lengths.sum value
  | [] => rfl
  | length :: rest => by
    rw [List.map_cons, expand_cons, expand_map_pair value rest, List.sum_cons, List.replicate_add]

theorem length_expand (entries : List (α × Nat)) : (expand entries).length = (entries.map Prod.snd).sum := by
  induction entries with
  | nil => rfl
  | cons entry rest ih => simp [ih]

theorem length_le_sum_of_pos : ∀ {entries : List (α × Nat)}, (∀ entry ∈ entries, 0 < entry.2) →
    entries.length ≤ (entries.map Prod.snd).sum
  | [], _ => Nat.le_refl 0
  | entry :: rest, positive => by
    have here := positive entry List.mem_cons_self
    have later := length_le_sum_of_pos fun other member => positive other (List.mem_cons_of_mem _ member)
    simp only [List.length_cons, List.map_cons, List.sum_cons]
    omega

/-- What a scan does with the runs: `emit` on each in turn. -/
def emitRuns (emit : β → α → Nat → β) (acc : β) (entries : List (α × Nat)) : β :=
  entries.foldl (fun acc entry => emit acc entry.1 entry.2) acc

theorem emitRuns_append (emit : β → α → Nat → β) (acc : β) (entries more : List (α × Nat)) :
    emitRuns emit acc (entries ++ more) = emitRuns emit (emitRuns emit acc entries) more := by
  simp [emitRuns, List.foldl_append]

theorem emitRuns_add (cost : Nat → Nat) : ∀ (start : Nat) (entries : List (α × Nat)),
    emitRuns (fun total _ length => total + cost length) start entries =
      start + (entries.map fun entry => cost entry.2).sum
  | start, [] => by simp [emitRuns]
  | start, entry :: rest => by
    rw [show entry :: rest = [entry] ++ rest from rfl, emitRuns_append, emitRuns_add cost _ rest]
    simp [emitRuns, Nat.add_assoc]

variable [DecidableEq α]

/-- The runs of a list that starts with `length` copies of `current`, then `rest`. -/
def runsFrom (current : α) (length : Nat) : List α → List (α × Nat)
  | [] => [(current, length)]
  | value :: rest => if value = current then runsFrom current (length + 1) rest
    else (current, length) :: runsFrom value 1 rest

def runs : List α → List (α × Nat)
  | [] => []
  | first :: rest => runsFrom first 1 rest

theorem expand_runsFrom (current : α) : ∀ (length : Nat) (rest : List α),
    expand (runsFrom current length rest) = List.replicate length current ++ rest
  | length, [] => by simp [runsFrom]
  | length, value :: rest => by
    rw [runsFrom]
    split
    · rename_i same
      rw [expand_runsFrom current (length + 1) rest, same, List.replicate_succ']
      simp
    · rw [expand_cons, expand_runsFrom value 1 rest]
      simp

@[simp] theorem expand_runs (values : List α) : expand (runs values) = values := by
  cases values with
  | nil => rfl
  | cons first rest => simp [runs, expand_runsFrom]

theorem pos_of_mem_runsFrom {current : α} {length : Nat} (positive : 0 < length) :
    ∀ {rest : List α} {entry : α × Nat}, entry ∈ runsFrom current length rest → 0 < entry.2
  | [], _, member => by
    simp only [runsFrom, List.mem_singleton] at member
    rw [member]
    exact positive
  | value :: rest, entry, member => by
    rw [runsFrom] at member
    split at member
    · exact pos_of_mem_runsFrom (Nat.succ_pos length) member
    · rcases List.mem_cons.mp member with here | later
      · rw [here]
        exact positive
      · exact pos_of_mem_runsFrom Nat.one_pos later

theorem pos_of_mem_runs {values : List α} {entry : α × Nat} (member : entry ∈ runs values) : 0 < entry.2 := by
  cases values with
  | nil => nomatch member
  | cons first rest => exact pos_of_mem_runsFrom Nat.one_pos member

theorem sum_runs (values : List α) : ((runs values).map Prod.snd).sum = values.length := by
  have expanded := congrArg List.length (expand_runs values)
  rw [expand, List.length_flatMap] at expanded
  simpa using expanded

/-! ### The scan -/

/-- One value of the scan: the run in progress grows, or is handed to `emit`
and a run of the new value starts. -/
def runStep (emit : β → α → Nat → β) (state : α × Nat × β) (value : α) : α × Nat × β :=
  if value = state.1 then (state.1, state.2.1 + 1, state.2.2) else (value, 1, emit state.2.2 state.1 state.2.1)

/-- The scan of a run-length encoder over its input, from `acc`. -/
def scanRuns (emit : β → α → Nat → β) (acc : β) : List α → β
  | [] => acc
  | first :: rest =>
    let state := rest.foldl (runStep emit) (first, 1, acc)
    emit state.2.2 state.1 state.2.1

theorem foldl_runStep (emit : β → α → Nat → β) : ∀ (rest : List α) (current : α) (length : Nat) (acc : β),
    let state := rest.foldl (runStep emit) (current, length, acc)
    emit state.2.2 state.1 state.2.1 = emitRuns emit acc (runsFrom current length rest)
  | [], _, _, _ => rfl
  | value :: rest, current, length, acc => by
    simp only [List.foldl_cons, runStep, runsFrom]
    split
    · exact foldl_runStep emit rest current (length + 1) acc
    · exact foldl_runStep emit rest value 1 (emit acc current length)

theorem scanRuns_eq (emit : β → α → Nat → β) (acc : β) (values : List α) :
    scanRuns emit acc values = emitRuns emit acc (runs values) := by
  cases values with
  | nil => rfl
  | cons first rest => exact foldl_runStep emit rest first 1 acc

/-! ### Runs cut to fit a length field -/

/-- A run of `length` cut into pieces of at most `limit`: as many full pieces
as fit, then what remains. -/
def pieces (limit length : Nat) : List Nat :=
  List.replicate (length / limit) limit ++ if length % limit > 0 then [length % limit] else []

theorem sum_pieces (limit length : Nat) : (pieces limit length).sum = length := by
  have whole := Nat.div_add_mod length limit
  unfold pieces
  by_cases remains : length % limit > 0
  · simp only [remains, if_true, List.sum_append, List.sum_replicate_nat, List.sum_singleton]
    rw [Nat.mul_comm]
    omega
  · simp only [remains, if_false, List.append_nil, List.sum_replicate_nat]
    rw [Nat.mul_comm]
    omega

theorem mem_pieces {limit length piece : Nat} (positive : 0 < limit) (member : piece ∈ pieces limit length) :
    0 < piece ∧ piece ≤ limit := by
  unfold pieces at member
  rcases List.mem_append.mp member with full | rest
  · obtain ⟨_, rfl⟩ := List.mem_replicate.mp full
    exact ⟨positive, Nat.le_refl _⟩
  · split at rest
    · rename_i remains
      obtain rfl := List.mem_singleton.mp rest
      exact ⟨remains, Nat.le_of_lt (Nat.mod_lt _ positive)⟩
    · nomatch rest

theorem length_pieces (limit length : Nat) : (pieces limit length).length = divCeil length limit := by
  unfold pieces divCeil
  by_cases remains : length % limit > 0 <;> simp [remains]

end Lance.Library
