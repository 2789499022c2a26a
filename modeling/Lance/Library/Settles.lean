import Mathlib.Logic.Basic

/-! Computations that may fail with an error and may also panic, as
`ExceptT ε Option`: `none` is a panic. A computation settles with `P` when it
does not panic and any value it returns has `P`. The rules here follow a `do`
block step by step: a value lifted from `Option` must be there, an error lifted
from `Except` settles at once, and a bind settles when its first part does and
every value that part may return makes the rest settle. -/

namespace Lance.Library

universe u

variable {ε α β : Type u}

def Settles (run : ExceptT ε Option α) (P : α → Prop) : Prop :=
  match run.run with
  | none => False
  | some (.error _) => True
  | some (.ok value) => P value

theorem settles_iff {run : ExceptT ε Option α} {P : α → Prop} :
    Settles run P ↔ (∃ failure, run = throw failure) ∨ ∃ value, run = pure value ∧ P value := by
  rcases run with _ | failure | value
  · simp [Settles, ExceptT.run, throw, throwThe, MonadExceptOf.throw, ExceptT.mk, pure, ExceptT.pure]
  · exact ⟨fun _ => Or.inl ⟨failure, rfl⟩, fun _ => trivial⟩
  · constructor
    · intro holds
      exact Or.inr ⟨value, rfl, holds⟩
    · rintro (⟨_, ⟨⟩⟩ | ⟨_, ⟨⟩, holds⟩)
      exact holds

@[simp] theorem settles_pure {value : α} {P : α → Prop} : Settles (pure value : ExceptT ε Option α) P ↔ P value :=
  Iff.rfl

@[simp] theorem settles_throw {failure : ε} {P : α → Prop} : Settles (throw failure : ExceptT ε Option α) P :=
  trivial

theorem settles_liftExcept {result : Except ε α} {P : α → Prop} (holds : ∀ value, result = .ok value → P value) :
    Settles (monadLift result : ExceptT ε Option α) P := by
  cases result with
  | error _ => trivial
  | ok value => exact holds value rfl

theorem settles_liftOption {result : Option α} {value : α} {P : α → Prop} (present : result = some value)
    (holds : P value) : Settles (monadLift result : ExceptT ε Option α) P := by
  subst present
  exact holds

theorem Settles.bind {first : ExceptT ε Option α} {rest : α → ExceptT ε Option β} {P : α → Prop} {Q : β → Prop}
    (settles : Settles first P) (next : ∀ value, P value → Settles (rest value) Q) : Settles (first >>= rest) Q := by
  rcases first with _ | _ | value
  · exact settles.elim
  · trivial
  · exact next value settles

theorem Settles.mono {run : ExceptT ε Option α} {P Q : α → Prop} (settles : Settles run P)
    (weaker : ∀ value, P value → Q value) : Settles run Q := by
  rcases run with _ | _ | value
  · exact settles.elim
  · trivial
  · exact weaker value settles

end Lance.Library
