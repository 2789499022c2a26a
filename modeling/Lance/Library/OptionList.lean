import Mathlib.Data.List.Basic

/-! Mapping a partial function over a list in the `Option` monad, the way a
loop that may panic on any element computes its outputs: the run succeeds when
every element does, and its outputs are exactly the images of the elements;
a filter whose test cannot fail keeps what a plain filter keeps. -/

namespace Lance.Library

universe u v

variable {α : Type u} {β : Type v} {f : α → Option β}

theorem mapM_some_cons {head : α} {rest : List α} {outputs : List β} :
    (head :: rest).mapM f = some outputs ↔
      ∃ first others, f head = some first ∧ rest.mapM f = some others ∧ outputs = first :: others := by
  rw [List.mapM_cons]
  cases f head with
  | none => simp
  | some first =>
    cases rest.mapM f with
    | none => simp
    | some others => simp [eq_comm]

theorem mapM_eq_some_filterMap {inputs : List α} (total : ∀ input ∈ inputs, (f input).isSome) :
    inputs.mapM f = some (inputs.filterMap f) := by
  induction inputs with
  | nil => rfl
  | cons head rest ih =>
    obtain ⟨first, found⟩ := Option.isSome_iff_exists.mp (total head List.mem_cons_self)
    have rest_ran := ih fun input member => total input (List.mem_cons_of_mem _ member)
    rw [List.filterMap_cons, found]
    exact mapM_some_cons.mpr ⟨first, _, found, rest_ran, rfl⟩

theorem mapM_eq_some_map {g : α → β} {inputs : List α} (agrees : ∀ input ∈ inputs, f input = some (g input)) :
    inputs.mapM f = some (inputs.map g) := by
  induction inputs with
  | nil => rfl
  | cons head rest ih =>
    exact mapM_some_cons.mpr ⟨g head, _, agrees head List.mem_cons_self,
      ih fun input member => agrees input (List.mem_cons_of_mem _ member), rfl⟩

theorem mapM_isSome {inputs : List α} (total : ∀ input ∈ inputs, (f input).isSome) :
    (inputs.mapM f).isSome := by
  rw [mapM_eq_some_filterMap total]
  rfl

theorem mem_of_mapM_eq_some {inputs : List α} {outputs : List β} (ran : inputs.mapM f = some outputs)
    {output : β} : output ∈ outputs ↔ ∃ input ∈ inputs, f input = some output := by
  induction inputs generalizing outputs with
  | nil =>
    cases ran
    simp
  | cons head rest ih =>
    obtain ⟨first, others, found, rest_ran, rfl⟩ := mapM_some_cons.mp ran
    simp only [List.mem_cons, ih rest_ran, or_and_right, exists_or, exists_eq_left', found,
      Option.some.injEq, eq_comm]

theorem getElem?_of_mapM_eq_some {inputs : List α} {outputs : List β} (ran : inputs.mapM f = some outputs)
    (i : Nat) : outputs[i]? = inputs[i]?.bind f := by
  induction inputs generalizing outputs i with
  | nil =>
    cases ran
    rfl
  | cons head rest ih =>
    obtain ⟨first, others, found, rest_ran, rfl⟩ := mapM_some_cons.mp ran
    cases i with
    | zero => simp [found]
    | succ i => simp [ih rest_ran i]

theorem filterMap_getElem?_range (xs : List α) :
    ∀ rest : List α, (List.range xs.length).filterMap (fun k => (xs ++ rest)[k]?) = xs := by
  induction xs with
  | nil => intro _; rfl
  | cons x xs ih =>
    intro rest
    rw [List.length_cons, List.range_succ_eq_map, List.filterMap_cons, List.filterMap_map]
    simp only [List.cons_append, List.getElem?_cons_zero, Function.comp_def, List.getElem?_cons_succ]
    rw [ih rest]

section Fold

variable {σ : Type u} {step : σ → α → Option σ} (Inv : σ → Prop)

theorem optionFoldlM_invariant :
    ∀ (inputs : List α), (∀ input ∈ inputs, ∀ state next, Inv state → step state input = some next → Inv next) →
      ∀ {start state : σ}, Inv start → inputs.foldlM step start = some state → Inv state := by
  intro inputs
  induction inputs with
  | nil =>
    intro _ start state initial run
    cases run
    exact initial
  | cons input rest ih =>
    intro preserved start state initial run
    obtain ⟨next, stepped, rest_run⟩ := Option.bind_eq_some_iff.mp run
    exact ih (fun later member => preserved later (List.mem_cons_of_mem _ member))
      (preserved input List.mem_cons_self start next initial stepped) rest_run

/-- An invariant that also reads the inputs still to come: kept by each step
from the state before it and the inputs after it, it holds at the end. -/
theorem optionFoldlM_invariant_rest (Holds : σ → List α → Prop)
    (preserved : ∀ input rest state next, Holds state (input :: rest) → step state input = some next →
      Holds next rest) :
    ∀ {inputs : List α} {start state : σ}, Holds start inputs → inputs.foldlM step start = some state →
      Holds state []
  | [], _, _, initial, run => by
    cases run
    exact initial
  | input :: rest, start, _, initial, run => by
    obtain ⟨next, stepped, restRun⟩ := Option.bind_eq_some_iff.mp run
    exact optionFoldlM_invariant_rest Holds preserved (preserved input rest start next initial stepped) restRun

theorem foldl_invariant_length {advance : σ → α → σ} (Holds : ℕ → σ → Prop)
    (preserved : ∀ count state input, Holds count state → Holds (count + 1) (advance state input)) :
    ∀ {inputs : List α} {count : ℕ} {start : σ}, Holds count start →
      Holds (count + inputs.length) (inputs.foldl advance start)
  | [], _, _, initial => initial
  | input :: rest, count, start, initial => by
    have kept : Holds (count + 1 + rest.length) (rest.foldl advance (advance start input)) :=
      foldl_invariant_length Holds preserved (preserved count start input initial)
    rwa [List.length_cons, List.foldl_cons, ← Nat.add_assoc, Nat.add_right_comm]

end Fold

section Filter

variable {γ : Type} {keep : γ → Option Bool}

theorem filterAuxM_eq_some (p : γ → Bool) :
    ∀ (inputs kept : List γ), (∀ input ∈ inputs, keep input = some (p input)) →
      List.filterAuxM keep inputs kept = some ((inputs.filter p).reverse ++ kept)
  | [], kept, _ => rfl
  | input :: rest, kept, total => by
    have restTotal : ∀ later ∈ rest, keep later = some (p later) := fun later member =>
      total later (List.mem_cons_of_mem _ member)
    simp only [List.filterAuxM, total input List.mem_cons_self, Option.bind_eq_bind, Option.bind_some,
      filterAuxM_eq_some p rest _ restTotal, List.filter_cons]
    cases p input <;> simp

theorem filterM_eq_some (p : γ → Bool) {inputs : List γ} (total : ∀ input ∈ inputs, keep input = some (p input)) :
    inputs.filterM keep = some (inputs.filter p) := by
  rw [List.filterM, filterAuxM_eq_some p inputs [] total]
  simp

theorem allM_eq_some_true : ∀ {inputs : List γ}, (∀ input ∈ inputs, keep input = some true) →
    inputs.allM keep = some true
  | [], _ => rfl
  | input :: rest, holds => by
    simp only [List.allM, holds input List.mem_cons_self, Option.bind_eq_bind, Option.bind_some]
    exact allM_eq_some_true fun later member => holds later (List.mem_cons_of_mem _ member)

end Filter

end Lance.Library
