import Mathlib

/-!
# Runs whose every step meets a condition

A run takes its actions one after another. A condition on a state and the action taken there is met
along the run when every action meets it in the state it is taken in. WHAT EVERY SUCH ACTION KEEPS,
THE RUN KEEPS.
-/

namespace Apollo.Lib

universe u v

variable {State : Type u} {Action : Type v}

/-- Every action of a run meets the condition in the state it is taken in. -/
def EachStep (step : State → Action → State) (condition : State → Action → Prop) (state : State) :
    List Action → Prop
  | [] => True
  | action :: rest => condition state action ∧ EachStep step condition (step state action) rest

namespace EachStep

variable {step : State → Action → State} {condition : State → Action → Prop} {state : State}
  {actions : List Action}

instance decidable [∀ state action, Decidable (condition state action)] :
    (state : State) → (actions : List Action) → Decidable (EachStep step condition state actions)
  | _, [] => isTrue trivial
  | state, action :: rest =>
    @instDecidableAnd _ _ inferInstance (decidable (step state action) rest)

/-- The invariant rule. -/
theorem invariant (holds : State → Prop) (h : EachStep step condition state actions)
    (hstart : holds state)
    (hstep : ∀ state action, holds state → condition state action → holds (step state action)) :
    holds (actions.foldl step state) := by
  induction actions generalizing state with
  | nil => exact hstart
  | cons action rest ih => exact ih h.2 (hstep state action hstart h.1)

end EachStep

end Apollo.Lib
