import Mathlib.Data.List.Basic

/-! # Machines that respond

A machine takes one input after another; each is answered and leaves the machine in a next
state. What is said of all answers of a run is said of every input in the state it is taken in,
and two machines that answer alike while their states are related have the same answers.
-/

namespace Responses

variable {State Input Output : Type}

/-- The state behind some inputs. -/
def stateAfter (step : State → Input → Output × State) (s : State) (inputs : List Input) : State :=
  inputs.foldl (fun s i => (step s i).2) s

/-- The answers to some inputs. -/
def responses (step : State → Input → Output × State) (s : State) : List Input → List Output
  | [] => []
  | i :: inputs => (step s i).1 :: responses step (step s i).2 inputs

section

variable {step : State → Input → Output × State}

@[simp] theorem stateAfter_nil (s : State) : stateAfter step s [] = s := rfl

/-- What holds at the start and is kept by every step holds after every run. -/
theorem invariant {Inv : State → Prop} (hstep : ∀ s i, Inv s → Inv (step s i).2) {s : State}
    (hs : Inv s) (inputs : List Input) : Inv (stateAfter step s inputs) := by
  induction inputs generalizing s with
  | nil => exact hs
  | cons i inputs ih => exact ih (hstep s i hs)

/-- All answers of a run, by the inputs and the states they are taken in. -/
theorem forall_responses {P : Output → Prop} (s : State) (inputs : List Input) :
    (∀ o ∈ responses step s inputs, P o) ↔
      ∀ before i after, inputs = before ++ i :: after →
        P (step (stateAfter step s before) i).1 := by
  induction inputs generalizing s with
  | nil => simp [responses]
  | cons i inputs ih =>
      rw [responses, List.forall_mem_cons, ih]
      constructor
      · rintro ⟨hfirst, hrest⟩ before j after hsplit
        cases before with
        | nil =>
            obtain ⟨rfl, -⟩ := List.cons.inj hsplit
            exact hfirst
        | cons k before =>
            obtain ⟨rfl, htail⟩ := List.cons.inj hsplit
            exact hrest before j after htail
      · intro hall
        refine ⟨hall [] i inputs rfl, fun before j after hsplit => ?_⟩
        exact hall (i :: before) j after (congrArg (i :: ·) hsplit)

/-- What is kept of every answer may be kept by the machine. -/
theorem map_responses {Kept : Type} (keep : Output → Kept) (s : State) (inputs : List Input) :
    (responses step s inputs).map keep =
      responses (fun s i => (keep (step s i).1, (step s i).2)) s inputs := by
  induction inputs generalizing s with
  | nil => rfl
  | cons i inputs ih => rw [responses, responses, List.map_cons, ih]

end

/-! ## Two machines -/

section

variable {State' : Type} {step : State → Input → Output × State}
  {step' : State' → Input → Output × State'}

/-- Every input is taken in a state that meets the condition. -/
def Meets (step : State → Input → Output × State) (condition : State → Input → Prop)
    (s : State) : List Input → Prop
  | [] => True
  | i :: inputs => condition s i ∧ Meets step condition (step s i).2 inputs

instance decidableMeets {condition : State → Input → Prop} [∀ s i, Decidable (condition s i)] :
    ∀ (s : State) (inputs : List Input), Decidable (Meets step condition s inputs)
  | _, [] => .isTrue trivial
  | s, i :: inputs =>
      have : Decidable (Meets step condition (step s i).2 inputs) :=
        decidableMeets (step s i).2 inputs
      inferInstanceAs (Decidable (condition s i ∧ Meets step condition (step s i).2 inputs))

/-- Machines that answer alike as long as a condition is met have the same answers over a run
that meets it. -/
theorem responses_eq {R : State → State' → Prop} {condition : State → Input → Prop}
    (hstep : ∀ s s' i, R s s' → condition s i →
      (step s i).1 = (step' s' i).1 ∧ R (step s i).2 (step' s' i).2)
    {s : State} {s' : State'} (hR : R s s') {inputs : List Input}
    (hmeets : Meets step condition s inputs) :
    responses step s inputs = responses step' s' inputs := by
  induction inputs generalizing s s' with
  | nil => rfl
  | cons i inputs ih =>
      obtain ⟨hcondition, hmeets⟩ := hmeets
      obtain ⟨hanswer, hR⟩ := hstep s s' i hR hcondition
      rw [responses, responses, hanswer, ih hR hmeets]

end

end Responses
