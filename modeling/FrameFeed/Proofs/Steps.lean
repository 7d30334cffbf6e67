import FrameFeed.Reading

/-! Steps that can fail, one after another. -/

namespace FrameFeed

open EStateM (Result)

/-- What a step gives, without the state after it. -/
def resultOf {Failure State Value : Type} : Result Failure State Value → Except Failure Value
  | .ok value _ => .ok value
  | .error failure _ => .error failure

/-- The state after a step. -/
def stateOf {Failure State Value : Type} : Result Failure State Value → State
  | .ok _ state => state
  | .error _ state => state

theorem ok_of_resultOf {Failure State Value : Type} {result : Result Failure State Value}
    {value : Value} (h : resultOf result = .ok value) : ∃ after, result = .ok value after := by
  cases result with
  | error => cases h
  | ok => exact ⟨_, congrArg (Result.ok · _) (Except.ok.inj h)⟩

theorem error_of_resultOf {Failure State Value : Type} {result : Result Failure State Value}
    {failure : Failure} (h : resultOf result = .error failure) :
    ∃ after, result = .error failure after := by
  cases result with
  | ok => cases h
  | error => exact ⟨_, congrArg (Result.error · _) (Except.error.inj h)⟩

theorem ok_of_toOption {Failure Value : Type} {result : Except Failure Value} {value : Value}
    (h : result.toOption = some value) : result = .ok value := by
  cases result with
  | error => cases h
  | ok => exact congrArg Except.ok (Option.some.inj h)

/-- The failure of what has failed. -/
def failureOf {Failure Value : Type} : Except Failure Value → Option Failure
  | .ok _ => none
  | .error failure => some failure

theorem error_of_failureOf {Failure Value : Type} {result : Except Failure Value} {failure : Failure}
    (h : failureOf result = some failure) : result = .error failure := by
  cases result with
  | error => exact congrArg Except.error (Option.some.inj h)
  | ok => cases h

section

variable {Failure State Value Value' : Type} {step : EStateM Failure State Value}
  {next : Value → EStateM Failure State Value'} {state after : State}

/-- After a step that succeeds the next one runs. -/
theorem bind_of_ok {value : Value} (h : step state = .ok value after) :
    (step >>= next) state = next value after := by
  simp only [bind, EStateM.bind, h]

theorem get_bind (next : State → EStateM Failure State Value) (state : State) :
    (get >>= next) state = next state state := rfl

theorem ok_of_bind {value : Value'} (h : (step >>= next) state = .ok value after) :
    ∃ given middle, step state = .ok given middle ∧ next given middle = .ok value after := by
  simp only [bind, EStateM.bind] at h
  split at h
  · rename_i given middle hStep
    exact ⟨given, middle, hStep, h⟩
  · cases h

/-- Where two steps fail, the first one does, or the second one after it. -/
theorem error_of_bind {failure : Failure} (h : (step >>= next) state = .error failure after) :
    step state = .error failure after ∨
      ∃ given middle, step state = .ok given middle ∧ next given middle = .error failure after := by
  simp only [bind, EStateM.bind] at h
  split at h
  · rename_i given middle hStep
    exact .inr ⟨given, middle, hStep, h⟩
  · rename_i hStep
    cases h
    exact .inl hStep

/-- A step that fails is the last one. -/
theorem bind_of_error {failure : Failure} (h : step state = .error failure after) :
    (step >>= next) state = .error failure after := by
  simp only [bind, EStateM.bind, h]

theorem resultOf_bind_pure (step : EStateM Failure State Value) (change : Value → Value')
    (state : State) : resultOf ((step >>= fun value => pure (change value)) state) =
      (resultOf (step state)).map change := by
  cases hStep : step state with
  | ok => rw [bind_of_ok hStep]; rfl
  | error => rw [bind_of_error hStep]; rfl

theorem stateOf_bind_pure (step : EStateM Failure State Value) (change : Value → Value')
    (state : State) :
    stateOf ((step >>= fun value => pure (change value)) state) = stateOf (step state) := by
  cases hStep : step state with
  | ok => rw [bind_of_ok hStep]; rfl
  | error => rw [bind_of_error hStep]; rfl

theorem ite_bind (condition : Prop) [Decidable condition] (step other : EStateM Failure State Value)
    (next : Value → EStateM Failure State Value') :
    (if condition then step else other) >>= next =
      if condition then step >>= next else other >>= next := by
  split <;> rfl

/-- A step keeps a property of the state, also where it fails. -/
def Keeps (Holds : State → Prop) (step : EStateM Failure State Value) : Prop :=
  ∀ state, Holds state → Holds (stateOf (step state))

variable {Holds : State → Prop}

theorem keeps_pure (value : Value) : Keeps Holds (pure value : EStateM Failure State Value) :=
  fun _ h => h

theorem keeps_throw (failure : Failure) :
    Keeps Holds (throw failure : EStateM Failure State Value) :=
  fun _ h => h

theorem Keeps.bind (h : Keeps Holds step) (hNext : ∀ value, Keeps Holds (next value)) :
    Keeps Holds (step >>= next) := by
  intro state hState
  have hAfter := h state hState
  cases hStep : step state with
  | ok value after =>
    rw [hStep] at hAfter
    rw [bind_of_ok hStep]
    exact hNext value after hAfter
  | error failure after =>
    rw [hStep] at hAfter
    rw [bind_of_error hStep]
    exact hAfter

/-- A step keeps a property of the state where it succeeds. -/
def KeepsOnSuccess (Holds : State → Prop) (step : EStateM Failure State Value) : Prop :=
  ∀ ⦃state value after⦄, step state = .ok value after → Holds state → Holds after

theorem keepsOnSuccess_pure (value : Value) :
    KeepsOnSuccess Holds (pure value : EStateM Failure State Value) := by
  intro state value after h hState
  cases h
  exact hState

theorem keepsOnSuccess_throw (failure : Failure) :
    KeepsOnSuccess Holds (throw failure : EStateM Failure State Value) :=
  fun _ _ _ h => nomatch h

theorem keepsOnSuccess_get : KeepsOnSuccess Holds (get : EStateM Failure State State) := by
  intro state value after h hState
  cases h
  exact hState

theorem KeepsOnSuccess.bind (h : KeepsOnSuccess Holds step)
    (hNext : ∀ value, KeepsOnSuccess Holds (next value)) : KeepsOnSuccess Holds (step >>= next) := by
  intro state value after hStep hState
  obtain ⟨given, middle, hFirst, hSecond⟩ := ok_of_bind hStep
  exact hNext given hSecond (h hFirst hState)

/-- A step fails in allowed ways only. -/
def FailsOnly (Allowed : Failure → Prop) (step : EStateM Failure State Value) : Prop :=
  ∀ ⦃state failure after⦄, step state = .error failure after → Allowed failure

variable {Allowed : Failure → Prop}

theorem failsOnly_pure (value : Value) :
    FailsOnly Allowed (pure value : EStateM Failure State Value) :=
  fun _ _ _ h => nomatch h

theorem failsOnly_throw {failure : Failure} (h : Allowed failure) :
    FailsOnly Allowed (throw failure : EStateM Failure State Value) := by
  intro state failed after hThrow
  cases hThrow
  exact h

theorem FailsOnly.bind (h : FailsOnly Allowed step)
    (hNext : ∀ value, FailsOnly Allowed (next value)) :
    FailsOnly Allowed (step >>= next) := by
  intro state failure after hStep
  rcases error_of_bind hStep with hFirst | ⟨given, middle, -, hSecond⟩
  · exact h hFirst
  · exact hNext given hSecond

end

namespace Reading

variable {Value : Type} {step : Cursor.Action Value} {reading : Reading} {cursor : Cursor}

theorem onCursor_ok {value : Value} (h : step reading.cursor = .ok value cursor) :
    onCursor step reading = .ok value { reading with cursor } := by
  simp only [onCursor, h]

theorem position_ok : position reading = .ok reading.cursor.position reading := rfl

end Reading

end FrameFeed
