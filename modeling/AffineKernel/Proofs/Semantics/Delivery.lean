import AffineKernel.Proofs.Semantics.Meaning
import AffineKernel.Semantics.Machine

/-!
# Runs that deliver a meaning

`Machine.Delivers` compares the outcome of a run with a meaning: the run has a
result exactly if the meaning is a value, and then the two are related as asked
for; otherwise it fails with the fault of the meaning. Runs are put together
step by step, and so are meanings (`Delivers.bind`).

`Machine.advance` executes a list of operations like `Machine.runOps`, and keeps
the frame at the end, so that lists can be split (`advance_append`).
-/

set_option autoImplicit false

namespace AffineKernel

namespace Step

/-- The values of a step that has returned. -/
def values? : Step → Option (List Datum)
  | .next _ => none
  | .returned values => some values

/-- What comes after a step, unless it has returned. -/
def andThen (next : Frame → Exec Step) : Step → Exec Step
  | .returned values => pure (.returned values)
  | .next frame => next frame

end Step

namespace Machine

variable {α β γ δ : Type}

/-- The outcome of a run is what a meaning says. -/
def Delivers (outcome : EStateM.Result RunError Machine α) (meaning : Except Fault β)
    (good : β → α → Machine → Prop) : Prop :=
  match meaning, outcome with
  | .ok b, .ok a machine => good b a machine
  | .error fault, .error error _ => error.fault = fault
  | _, _ => False

namespace Delivers

variable {outcome : EStateM.Result RunError Machine α} {meaning : Except Fault β}
  {good better : β → α → Machine → Prop}

theorem mono (delivers : Delivers outcome meaning good)
    (implied : ∀ b a machine, good b a machine → better b a machine) :
    Delivers outcome meaning better := by
  cases meaning with
  | ok b =>
      cases outcome with
      | ok a machine => exact implied b a machine delivers
      | error error machine => exact delivers
  | error fault => cases outcome <;> exact delivers

/-- The values that were looked for may be remembered. -/
theorem with_value (delivers : Delivers outcome meaning good) :
    Delivers outcome meaning fun b a machine => meaning = .ok b ∧ good b a machine := by
  cases meaning with
  | ok b =>
      cases outcome with
      | ok a machine => exact ⟨rfl, delivers⟩
      | error error machine => exact delivers
  | error fault => cases outcome <;> exact delivers

/-- One run after the other delivers one meaning after the other. -/
theorem bind {action : Exec γ} {next : γ → Exec α} {machine : Machine}
    {first : Except Fault δ} {second : δ → Except Fault β} {middle : δ → γ → Machine → Prop}
    (step : Delivers (action machine) first middle)
    (later : ∀ d c after, middle d c after → Delivers (next c after) (second d) good) :
    Delivers ((action >>= next) machine) (first >>= second) good := by
  simp only [Bind.bind, EStateM.bind]
  cases first with
  | ok d =>
      cases ran : action machine with
      | ok c after =>
          rw [ran] at step
          exact later d c after step
      | error error after =>
          rw [ran] at step
          exact step.elim
  | error fault =>
      cases ran : action machine with
      | ok c after =>
          rw [ran] at step
          exact step.elim
      | error error after =>
          rw [ran] at step
          exact step

/-- A run without a meaning of its own comes first. -/
theorem of_ok {action : Exec γ} {next : γ → Exec α} {machine after : Machine} {c : γ}
    (ran : action machine = .ok c after) (later : Delivers (next c after) meaning good) :
    Delivers ((action >>= next) machine) meaning good := by
  simp only [Bind.bind, EStateM.bind, ran]
  exact later

end Delivers

/-- The outcome of a run is what a meaning says, and the meaning is a value, a division by zero, an
access out of bounds or an overflow. -/
def Realizes (outcome : EStateM.Result RunError Machine α) (meaning : Except Fault β)
    (good : β → α → Machine → Prop) : Prop :=
  meaning ≠ .error .meaningless ∧ Delivers outcome meaning good

namespace Realizes

variable {outcome : EStateM.Result RunError Machine α} {meaning : Except Fault β}
  {good better : β → α → Machine → Prop}

theorem of_ok {b : β} {a : α} {machine : Machine} (holds : good b a machine) :
    Realizes (.ok a machine) (.ok b) good := ⟨by simp, holds⟩

theorem mono (realizes : Realizes outcome meaning good)
    (implied : ∀ b a machine, meaning = .ok b → good b a machine → better b a machine) :
    Realizes outcome meaning better :=
  ⟨realizes.1, realizes.2.with_value.mono fun b a machine both => implied b a machine both.1 both.2⟩

/-- A run whose meaning has a value has a result. -/
theorem exists_ok (realizes : Realizes outcome meaning good) {b : β} (value : meaning = .ok b) :
    ∃ a machine, outcome = .ok a machine ∧ good b a machine := by
  obtain ⟨-, delivers⟩ := realizes
  subst value
  cases outcome with
  | ok a machine => exact ⟨a, machine, rfl, delivers⟩
  | error error machine => exact delivers.elim

/-- One run after the other realizes one meaning after the other. -/
theorem bind {action : Exec γ} {next : γ → Exec α} {machine : Machine}
    {first : Except Fault δ} {second : δ → Except Fault β} {middle : δ → γ → Machine → Prop}
    (step : Realizes (action machine) first middle)
    (later : ∀ d c after, first = .ok d → middle d c after →
      Realizes (next c after) (second d) good) :
    Realizes ((action >>= next) machine) (first >>= second) good := by
  have delivers := step.2.with_value.bind fun d c after reached =>
    (later d c after reached.1 reached.2).2
  refine ⟨?_, delivers⟩
  cases value : first with
  | error fault =>
      intro wrong
      exact step.1 (value.trans (congrArg Except.error (Except.error.inj wrong)))
  | ok d =>
      obtain ⟨c, after, -, reached⟩ := step.exists_ok value
      exact (later d c after value reached).1

/-- More may be made of a meaning, if it cannot fail. -/
theorem andThen {f : β → Except Fault δ} {other : δ → α → Machine → Prop}
    (realizes : Realizes outcome meaning good)
    (implied : ∀ b a machine, meaning = .ok b → good b a machine →
      ∃ d, f b = .ok d ∧ other d a machine) : Realizes outcome (meaning >>= f) other := by
  cases meaning with
  | error fault =>
      refine ⟨fun wrong => ?_, by cases outcome <;> exact realizes.2⟩
      exact realizes.1 (congrArg Except.error (Except.error.inj wrong))
  | ok b =>
      obtain ⟨a, machine, rfl, holds⟩ := realizes.exists_ok rfl
      obtain ⟨d, made, known⟩ := implied b a machine rfl holds
      change Realizes _ (f b) other
      rw [made]
      exact .of_ok known

/-- A meaning may be written in another form. -/
theorem map {f : β → δ} {other : δ → α → Machine → Prop} (realizes : Realizes outcome meaning good)
    (implied : ∀ b a machine, meaning = .ok b → good b a machine → other (f b) a machine) :
    Realizes outcome (meaning >>= fun b => pure (f b)) other :=
  realizes.andThen fun b a machine known holds => ⟨f b, rfl, implied b a machine known holds⟩

end Realizes

/-! ## Lists of operations -/

variable (step : OpId → Frame → Exec Step)

/-- Executes operations in order until one returns, and keeps the frame. -/
def advance : List OpId → Frame → Exec Step
  | [], frame => pure (.next frame)
  | id :: rest, frame => do
    match ← step id frame with
    | .returned values => return .returned values
    | .next frame => advance rest frame

theorem advance_cons (id : OpId) (rest : List OpId) (frame : Frame) :
    advance step (id :: rest) frame = step id frame >>= Step.andThen (advance step rest) := by
  rw [advance]
  rfl

/-- An operation after which the block goes on. -/
theorem advance_next {id : OpId} {rest : List OpId} {frame next : Frame} {machine last : Machine}
    (ran : step id frame machine = .ok (.next next) last) :
    advance step (id :: rest) frame machine = advance step rest next last := by
  rw [advance_cons]
  simp only [bind, EStateM.bind, ran]
  rfl

theorem advance_singleton (id : OpId) (frame : Frame) :
    advance step [id] frame = step id frame := by
  have same : Step.andThen (advance step []) = pure := by
    funext outcome
    cases outcome <;> rfl
  rw [advance_cons, same, bind_pure]

theorem advance_append (first second : List OpId) (frame : Frame) :
    advance step (first ++ second) frame =
      advance step first frame >>= Step.andThen (advance step second) := by
  induction first generalizing frame with
  | nil => rfl
  | cons id rest ih =>
      rw [List.cons_append, advance_cons, advance_cons, bind_assoc]
      congr 1
      funext outcome
      cases outcome with
      | returned values => rfl
      | next frame => exact ih frame

/-- Operations after which the block goes on. -/
theorem advance_append_next {first second : List OpId} {frame next : Frame}
    {machine last : Machine} (ran : advance step first frame machine = .ok (.next next) last) :
    advance step (first ++ second) frame machine = advance step second next last := by
  rw [advance_append]
  simp only [bind, EStateM.bind, ran]
  rfl

/-- A list of operations runs like `advance`, less the frame. -/
theorem runOps_eq (ops : List OpId) (frame : Frame) :
    runOps step ops frame = Step.values? <$> advance step ops frame := by
  induction ops generalizing frame with
  | nil => rfl
  | cons id rest ih =>
      rw [runOps, advance_cons, map_bind]
      congr 1
      funext outcome
      cases outcome with
      | returned values => rfl
      | next frame => exact ih frame

end Machine

end AffineKernel
