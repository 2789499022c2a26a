import Mathlib.Logic.Basic

/-! Runs of a fallible step over a list of inputs, the way a loop of the form
`for x in xs { state.step(x)? }` computes them: each step either returns the
next state or an error, and the first error ends the run. The rules here carry
an invariant of the state across a run and turn one step that must fail into a
failing run. -/

namespace Lance.Library

universe u v w

variable {σ : Type u} {α : Type v} {ε : Type w}

/-- A state is reached from `start` when some list of inputs runs to it without error. -/
def Reaches (step : σ → α → Except ε σ) (start state : σ) : Prop :=
  ∃ inputs : List α, inputs.foldlM step start = .ok state

variable {step : σ → α → Except ε σ}

theorem foldlM_ok_cons {start state : σ} {input : α} {rest : List α} :
    (input :: rest).foldlM step start = .ok state ↔
      ∃ next, step start input = .ok next ∧ rest.foldlM step next = .ok state := by
  rw [List.foldlM_cons]
  cases first : step start input with
  | error failure => simp [bind, Except.bind]
  | ok next => simp [bind, Except.bind]

theorem bind_eq_ok {β : Type u} {first : Except ε σ} {rest : σ → Except ε β} {result : β} :
    first >>= rest = .ok result ↔ ∃ value, first = .ok value ∧ rest value = .ok result := by
  cases first with
  | error failure => simp [bind, Except.bind]
  | ok value => simp [bind, Except.bind]

section Map

variable {β : Type u} {f : α → Except ε β}

theorem mapM_ok_cons {input : α} {rest : List α} {outputs : List β} :
    (input :: rest).mapM f = .ok outputs ↔
      ∃ output more, f input = .ok output ∧ rest.mapM f = .ok more ∧ outputs = output :: more := by
  rw [List.mapM_cons]
  cases first : f input with
  | error failure => simp [bind, Except.bind]
  | ok output =>
    cases later : rest.mapM f with
    | error failure => simp [bind, Except.bind]
    | ok more =>
      simp only [bind, Except.bind, pure, Except.pure, Except.ok.injEq]
      constructor
      · intro same
        exact ⟨output, more, rfl, rfl, same.symm⟩
      · rintro ⟨_, _, ⟨⟩, ⟨⟩, same⟩
        exact same.symm

theorem mapM_ok_of_forall :
    ∀ {inputs : List α}, (∀ input ∈ inputs, ∃ output, f input = .ok output) →
      ∃ outputs, inputs.mapM f = .ok outputs := by
  intro inputs
  induction inputs with
  | nil => exact fun _ => ⟨[], rfl⟩
  | cons input rest ih =>
    intro succeeds
    obtain ⟨output, first⟩ := succeeds input List.mem_cons_self
    obtain ⟨more, later⟩ := ih fun other member => succeeds other (List.mem_cons_of_mem _ member)
    exact ⟨output :: more, mapM_ok_cons.mpr ⟨output, more, first, later, rfl⟩⟩

theorem forall_mem_of_mapM_ok (P : β → Prop) :
    ∀ {inputs : List α} {outputs : List β}, inputs.mapM f = .ok outputs →
      (∀ input ∈ inputs, ∀ output, f input = .ok output → P output) → ∀ output ∈ outputs, P output := by
  intro inputs
  induction inputs with
  | nil =>
    intro outputs ran _ output member
    cases ran
    simp at member
  | cons input rest ih =>
    intro outputs ran promised output member
    obtain ⟨first, more, stepped, later, same⟩ := mapM_ok_cons.mp ran
    subst same
    rcases List.mem_cons.mp member with here | there
    · subst here
      exact promised input List.mem_cons_self _ stepped
    · exact ih later (fun other inside => promised other (List.mem_cons_of_mem _ inside)) output there

end Map

theorem Reaches.refl (start : σ) : Reaches step start start := ⟨[], rfl⟩

section Invariant

variable (Inv : σ → Prop)

theorem foldlM_invariant
    (preserved : ∀ state input next, Inv state → step state input = .ok next → Inv next) :
    ∀ (inputs : List α) {start state : σ}, Inv start →
      inputs.foldlM step start = .ok state → Inv state := by
  intro inputs
  induction inputs with
  | nil =>
    intro start state initial run
    cases run
    exact initial
  | cons input rest ih =>
    intro start state initial run
    obtain ⟨next, stepped, rest_run⟩ := foldlM_ok_cons.mp run
    exact ih (preserved start input next initial stepped) rest_run

theorem foldlM_invariant_of_mem :
    ∀ (inputs : List α), (∀ input ∈ inputs, ∀ state next, Inv state → step state input = .ok next → Inv next) →
      ∀ {start state : σ}, Inv start → inputs.foldlM step start = .ok state → Inv state := by
  intro inputs
  induction inputs with
  | nil =>
    intro _ start state initial run
    cases run
    exact initial
  | cons input rest ih =>
    intro preserved start state initial run
    obtain ⟨next, stepped, rest_run⟩ := foldlM_ok_cons.mp run
    have kept := preserved input List.mem_cons_self start next initial stepped
    exact ih (fun later member => preserved later (List.mem_cons_of_mem _ member)) kept rest_run

theorem Reaches.invariant
    (preserved : ∀ state input next, Inv state → step state input = .ok next → Inv next)
    {start state : σ} (initial : Inv start) (reached : Reaches step start state) : Inv state := by
  obtain ⟨inputs, run⟩ := reached
  exact foldlM_invariant Inv preserved inputs initial run

end Invariant

/-! ### Computations that may also panic

`ExceptT ε Option` holds a result, an error, or a panic (`none`). A step that
cannot fail lifts to its result, and a panic or an error ends what follows. -/

section Panics

variable {error value result : Type u}

@[simp] theorem liftM_some (a : value) : (liftM (some a) : ExceptT error Option value) = pure a := rfl

@[simp] theorem liftM_none : (liftM (none : Option value) : ExceptT error Option value) = ExceptT.mk none := rfl

@[simp] theorem panic_bind (f : value → ExceptT error Option result) :
    (ExceptT.mk none : ExceptT error Option value) >>= f = ExceptT.mk none := rfl

@[simp] theorem exceptT_throw_bind (failure : error) (f : value → ExceptT error Option result) :
    (throw failure : ExceptT error Option value) >>= f = throw failure := rfl

theorem exceptT_bind_eq_pure {first : ExceptT error Option value} {rest : value → ExceptT error Option result}
    {outcome : result} : first >>= rest = pure outcome ↔ ∃ a, first = pure a ∧ rest a = pure outcome := by
  rcases first with _ | _ | a
  · exact ⟨fun bound => (nomatch bound), fun ⟨_, lifted, _⟩ => (nomatch lifted)⟩
  · exact ⟨fun bound => (nomatch bound), fun ⟨_, lifted, _⟩ => (nomatch lifted)⟩
  · exact ⟨fun bound => ⟨a, rfl, bound⟩, fun ⟨_, lifted, bound⟩ => by cases lifted; exact bound⟩

theorem liftM_eq_pure {step : Option value} {a : value} :
    (liftM step : ExceptT error Option value) = pure a ↔ step = some a := by
  cases step with
  | none => exact ⟨fun lifted => (nomatch lifted), fun found => (nomatch found)⟩
  | some b => exact ⟨fun lifted => by cases lifted; rfl, fun found => by cases found; rfl⟩

end Panics

end Lance.Library
