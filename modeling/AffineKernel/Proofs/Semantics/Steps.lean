import AffineKernel.Proofs.Semantics.Failures
import AffineKernel.Proofs.Semantics.Safety
import Mathlib.Logic.Function.Iterate

/-!
# Runs step by step

A run of a function, one step at a time: a step executes an operation without
blocks, or enters a block, or goes on where a block has ended. What is left to do
when the block under execution ends is kept in a list, innermost first
(`Machine.Pending`). There is no bound on how deep blocks nest, nor on how often a
loop is repeated. The counter of a loop is a word, so that it starts over from the
least word when it is increased beyond the greatest one; a run is *bounded* when
this cannot happen (`Machine.State.Bounded`).

The machine computes the same in one go, with a bound on the depth to which blocks
nest. If it did not stop for want of depth, then the steps of a bounded run get to
what it says (`Machine.State.blocks_trace`). There is one lemma for each sort of
operation that executes blocks; the theorem is by induction on the depth allowed.
-/

set_option autoImplicit false

namespace AffineKernel

namespace Machine

/-- How a block, or the body of a function, ends: with the values that it returned, if it returned,
or with a failure. -/
abbrev Outcome := EStateM.Result RunError Machine (Option (List Datum))

/-- What goes on when the block under execution ends. -/
inductive Pending where
  /-- The block around a conditional. -/
  | branch (rest : List OpId) (frame : Frame)
  /-- The next iteration of a loop. -/
  | loop (body : BlockId) (range : LoopRange) (counter : Int64) (rest : List OpId) (frame : Frame)
  /-- The caller of a function. -/
  | call (id : OpId) (count : Nat) (rest : List OpId) (frame : Frame)

/-- A state of a run. -/
inductive State where
  /-- The rest of a block is to be executed. -/
  | running (ops : List OpId) (frame : Frame) (pending : List Pending) (machine : Machine)
  /-- A loop is before an iteration, or at its end. Its counter is a word. -/
  | iterating (body : BlockId) (range : LoopRange) (counter : Int64) (rest : List OpId)
      (frame : Frame) (pending : List Pending) (machine : Machine)
  /-- The block under execution has ended, with the values that it returned if it returned. -/
  | leaving (values : Option (List Datum)) (pending : List Pending) (machine : Machine)
  /-- The run is over. -/
  | ended (outcome : Outcome)

namespace State

/-- Goes on with what an action ends in. -/
def after {α : Type} (result : EStateM.Result RunError Machine α)
    (next : α → Machine → State) : State :=
  match result with
  | .ok a machine => next a machine
  | .error error machine => .ended (.error error machine)

/-- Enters a block. -/
def enterBlock (module : Module) (block : BlockId) (args : List Datum) (frame : Frame)
    (pending : List Pending) (machine : Machine) : State :=
  match module.block? block with
  | none => .ended (.error .malformed machine)
  | some found => .running found.ops (frame.enter block args) pending machine

/-- Enters the body of a function. -/
def enterFunction (module : Module) (func : OpId) (name : String) (args : List Datum)
    (pending : List Pending) (machine : Machine) : State :=
  match module.region? func 0 with
  | none => .ended (.error (.unknownFunction name) machine)
  | some body =>
    match module.block? body with
    | none => .ended (.error .malformed machine)
    | some block =>
      if args.length ≠ block.args.length then
        .ended (.error (.argumentMismatch name block.args.length args.length) machine)
      else
        enterBlock module body args [] pending
          { machine with log := machine.log.push (.interpret name args.length) }

/-- Goes on when an operation has ended. -/
def proceed (rest : List OpId) (pending : List Pending) (step : Step) (machine : Machine) : State :=
  match step with
  | .next frame => .running rest frame pending machine
  | .returned values => .leaving (some values) pending machine

/-- Begins an operation. Those without blocks are executed at once. -/
def begin (module : Module) (id : OpId) (rest : List OpId) (frame : Frame)
    (pending : List Pending) (machine : Machine) : State :=
  match module.op? id with
  | none => .ended (.error .malformed machine)
  | some op =>
    let site : Site := ⟨module, id, op⟩
    match op.kind with
    | .affineFor =>
      after (site.loopRange frame machine) fun range machine =>
        after (require op.regions.head? machine) fun body machine =>
          .iterating body range (Int64.ofInt range.low) rest frame pending machine
    | .affineIf =>
      after (site.branch frame machine) fun region machine =>
        match region with
        | some block => enterBlock module block [] frame (.branch rest frame :: pending) machine
        | none => .running rest frame pending machine
    | .call =>
      after (site.target machine) fun target machine =>
        after (op.operands.mapM (lookup frame) machine) fun args machine =>
          enterFunction module target.2 target.1 args
            (.call id op.results.length rest frame :: pending) machine
    | _ => after (runOp module still id frame machine) (proceed rest pending)

/-- Goes on when the block under execution has ended. -/
def resume (values : Option (List Datum)) (machine : Machine) : List Pending → State
  | [] => .ended (.ok values machine)
  | .branch rest frame :: pending =>
    match values with
    | some values => .leaving (some values) pending machine
    | none => .running rest frame pending machine
  | .loop body range counter rest frame :: pending =>
    .iterating body range (counter + Int64.ofInt range.step) rest frame pending machine
  | .call id count rest frame :: pending =>
    .running rest (defineResults frame id count (values.getD [])) pending machine

/-- One step of a run. -/
def step (module : Module) : State → State
  | .running [] _ pending machine => .leaving none pending machine
  | .running (id :: rest) frame pending machine => begin module id rest frame pending machine
  | .iterating body range counter rest frame pending machine =>
    if counter.toInt < range.high then
      enterBlock module body [.scalar (.int counter.toInt)] frame
        (.loop body range counter rest frame :: pending) machine
    else .running rest frame pending machine
  | .leaving values pending machine => resume values machine pending
  | .ended outcome => .ended outcome

/-- A state is reached from another one in a number of steps. -/
def Reaches (module : Module) (first last : State) : Prop :=
  ∃ count, (step module)^[count] first = last

/-- A loop does not count beyond the words: a counter below the upper bound can be increased. -/
def Contained : State → Prop
  | .iterating _ range _ _ _ _ _ => range.high + range.step ≤ 2 ^ 63
  | _ => True

instance : DecidablePred Contained
  | .iterating _ range _ _ _ _ _ => inferInstanceAs (Decidable (range.high + range.step ≤ 2 ^ 63))
  | .running .. | .leaving .. | .ended _ => inferInstanceAs (Decidable True)

/-- No loop of a run counts beyond the words. -/
def Bounded (module : Module) (first : State) : Prop :=
  ∀ state, Reaches module first state → state.Contained

/-- The values of a function whose body has ended; a function that does not return has none. -/
def returned : Outcome → EStateM.Result RunError Machine (List Datum)
  | .ok values machine => .ok (values.getD []) machine
  | .error error machine => .error error machine

/-- The state when the block under execution has ended. -/
def settle (pending : List Pending) : Outcome → State
  | .ok values machine => .leaving values pending machine
  | .error error machine => .ended (.error error machine)

section Reaching

variable {module : Module} {first middle last : State}

theorem Reaches.refl (state : State) : Reaches module state state := ⟨0, rfl⟩

theorem Reaches.trans (here : Reaches module first middle) (there : Reaches module middle last) :
    Reaches module first last := by
  obtain ⟨count, rfl⟩ := here
  obtain ⟨more, rfl⟩ := there
  exact ⟨more + count, Function.iterate_add_apply ..⟩

/-- One step, and then others. -/
theorem Reaches.step (there : Reaches module (step module first) last) :
    Reaches module first last := .trans ⟨1, rfl⟩ there

theorem Bounded.later (bounded : Bounded module first) (here : Reaches module first middle) :
    Bounded module middle := fun state there => bounded state (here.trans there)

theorem Bounded.step (bounded : Bounded module first) : Bounded module (step module first) :=
  bounded.later ⟨1, rfl⟩

end Reaching

end State

/-- A run did not stop for the depth to which blocks may nest. -/
def Shallow {α : Type} (result : EStateM.Result RunError Machine α) : Prop :=
  ∀ last, result ≠ .error .depthExceeded last

section Sequence

variable {α β : Type} {action : Exec β} {next : β → Exec α} {machine after : Machine}

theorem Shallow.first (shallow : Shallow ((action >>= next) machine)) :
    Shallow (action machine) :=
  fun last failed => shallow last (bind_eq_error.mpr (.inl failed))

theorem bind_of_ok {b : β} (ran : action machine = .ok b after) :
    (action >>= next) machine = next b after := by
  simp only [Bind.bind, EStateM.bind, ran]

theorem bind_of_error {error : RunError} (failed : action machine = .error error after) :
    (action >>= next) machine = .error error after :=
  bind_eq_error.mpr (.inl failed)

end Sequence

namespace State

/-- The steps get from the entry of a block to its end, as `run` says. -/
def Traces (module : Module) (run : RunBlock) : Prop :=
  ∀ (block : BlockId) (args : List Datum) (frame : Frame) (pending : List Pending)
    (machine : Machine), Bounded module (enterBlock module block args frame pending machine) →
    Shallow (run block args frame machine) →
    Reaches module (enterBlock module block args frame pending machine)
      (settle pending (run block args frame machine))

section Tracing

variable {module : Module} {run : RunBlock} {id : OpId} {rest : List OpId} {frame : Frame}
  {pending : List Pending} {machine : Machine}

/-- The bounds of a loop are words, and its step is positive. -/
theorem loopRange_sound {site : Site} {range : LoopRange} {last : Machine}
    (ranged : site.loopRange frame machine = .ok range last) : range.Sound := by
  obtain ⟨lower, _, -, ranged⟩ := bind_eq_ok.mp ranged
  obtain ⟨upper, _, -, ranged⟩ := bind_eq_ok.mp ranged
  obtain ⟨step, _, -, ranged⟩ := bind_eq_ok.mp ranged
  obtain ⟨lowerWords, _, -, ranged⟩ := bind_eq_ok.mp ranged
  obtain ⟨upperWords, _, -, ranged⟩ := bind_eq_ok.mp ranged
  obtain ⟨lowerBounds, _, -, ranged⟩ := bind_eq_ok.mp ranged
  obtain ⟨upperBounds, _, -, ranged⟩ := bind_eq_ok.mp ranged
  cases ranged
  exact
    { low := picked_fits fun numbers number picked => List.max?_mem picked
      high := picked_fits fun numbers number picked => List.min?_mem picked
      step := Int.lt_of_lt_of_le (by decide) (Int.le_max_right ..) }

/-- A counter that has not got past the upper bound can be increased. -/
theorem counter_add {counter : Int64} {high step : Int} (less : counter.toInt < high)
    (positive : 0 < step) (small : high + step ≤ 2 ^ 63) :
    (counter + Int64.ofInt step).toInt = counter.toInt + step := by
  have least := counter.le_toInt
  have words : (Int64.size : Int) = 2 ^ 64 := rfl
  rw [Int64.toInt_add, Int64.toInt_ofInt, Int.add_bmod_bmod]
  exact Int.bmod_eq_of_le (by omega) (by omega)

/-- A loop, from before an iteration to its end. -/
theorem iterating_reaches (traces : Traces module run) {body : BlockId} {range : LoopRange}
    (positive : 0 < range.step) (small : range.high + range.step ≤ 2 ^ 63) :
    ∀ {count : Nat} {counter : Int64} {machine : Machine},
      count = iterations counter.toInt range.high range.step →
      Bounded module (.iterating body range counter rest frame pending machine) →
      Shallow (iterate (fun current => do let _ ← run body [.scalar (.int current)] frame)
        range.step count counter.toInt machine) →
      Reaches module (.iterating body range counter rest frame pending machine)
        (after (iterate (fun current => do let _ ← run body [.scalar (.int current)] frame)
          range.step count counter.toInt machine) fun _ => .running rest frame pending) := by
  intro count
  induction count with
  | zero =>
      intro counter machine none _ _
      have past : ¬ counter.toInt < range.high := by
        intro less
        rw [iterations_of_lt less positive] at none
        cases none
      exact ⟨1, if_neg past⟩
  | succ count ih =>
      intro counter machine some bounded shallow
      have less : counter.toInt < range.high := by
        by_contra past
        rw [iterations_of_le (by omega)] at some
        cases some
      have entered : State.step module (.iterating body range counter rest frame pending machine) =
          enterBlock module body [.scalar (.int counter.toInt)] frame
            (.loop body range counter rest frame :: pending) machine := if_pos less
      have inside := entered ▸ bounded.step
      have ran := traces _ _ _ _ _ inside shallow.first.first
      refine .step (entered ▸ ran.trans ?_)
      have later := inside.later ran
      rw [iterate] at shallow ⊢
      cases outcome : run body [.scalar (.int counter.toInt)] frame machine with
      | error error last =>
          rw [bind_of_error (bind_of_error outcome)]
          exact .refl _
      | ok values last =>
          rw [outcome] at later
          have ended : (do let _ ← run body [.scalar (.int counter.toInt)] frame : Exec Unit)
              machine = .ok () last := bind_of_ok outcome
          rw [bind_of_ok ended] at shallow ⊢
          have next := counter_add less positive small
          refine .step ?_
          rw [iterations_of_lt less positive] at some
          rw [← next] at shallow some ⊢
          exact ih (Nat.succ.inj some) later.step shallow

/-- A function, from the entry of its body to the end of that. -/
theorem enterFunction_reaches (traces : Traces module run) {func : OpId} {name : String}
    {args : List Datum}
    (bounded : Bounded module (enterFunction module func name args pending machine))
    (shallow : Shallow (runFunction module run func name args machine)) :
    ∃ outcome : Outcome,
      Reaches module (enterFunction module func name args pending machine)
        (settle pending outcome) ∧
      runFunction module run func name args machine = returned outcome := by
  cases region : module.region? func 0 with
  | none =>
      refine ⟨.error (.unknownFunction name) machine, ?_, ?_⟩
      · rw [enterFunction, region]
        exact .refl _
      · simp only [runFunction, region]
        rfl
  | some body =>
      cases listed : module.block? body with
      | none =>
          refine ⟨.error .malformed machine, ?_, ?_⟩
          · simp only [enterFunction, region, listed]
            exact .refl _
          · simp only [runFunction, region, listed]
            rfl
      | some block =>
          by_cases arity : args.length = block.args.length
          · have entered : enterFunction module func name args pending machine =
                enterBlock module body args [] pending
                  { machine with log := machine.log.push (.interpret name args.length) } := by
              simp only [enterFunction, region, listed, ne_eq, arity, not_true_eq_false,
                if_false]
            rw [runFunction_apply region listed arity] at shallow ⊢
            rw [entered] at bounded ⊢
            refine ⟨_, traces _ _ _ _ _ bounded shallow.first, ?_⟩
            simp only [bind, EStateM.bind]
            cases run body args []
              { machine with log := machine.log.push (.interpret name args.length) } <;> rfl
          · refine ⟨.error (.argumentMismatch name block.args.length args.length) machine, ?_, ?_⟩
            · simp only [enterFunction, region, listed, ne_eq, arity, not_false_eq_true, if_true]
              exact .refl _
            · simp only [runFunction, region, listed, require_some, pure_bind, ne_eq, arity,
                not_false_eq_true, if_true]
              rfl

section Found

variable {op : Operation} (found : module.op? id = some op)
include found

theorem begin_loop (kind : op.kind = .affineFor) :
    begin module id rest frame pending machine =
      after ((site found).loopRange frame machine) fun range machine =>
        after (require op.regions.head? machine) fun body machine =>
          .iterating body range (Int64.ofInt range.low) rest frame pending machine := by
  simp only [begin, found, kind]

theorem begin_conditional (kind : op.kind = .affineIf) :
    begin module id rest frame pending machine =
      after ((site found).branch frame machine) fun region machine =>
        match region with
        | some block => enterBlock module block [] frame (.branch rest frame :: pending) machine
        | none => .running rest frame pending machine := by
  simp only [begin, found, kind]

theorem begin_call (kind : op.kind = .call) :
    begin module id rest frame pending machine =
      after ((site found).target machine) fun target machine =>
        after (op.operands.mapM (lookup frame) machine) fun args machine =>
          enterFunction module target.2 target.1 args
            (.call id op.results.length rest frame :: pending) machine := by
  simp only [begin, found, kind]

/-- Any other operation executes no block, so it does not matter what blocks do. -/
theorem begin_plain (loop : op.kind ≠ .affineFor) (conditional : op.kind ≠ .affineIf)
    (call : op.kind ≠ .call) :
    begin module id rest frame pending machine =
      after (runOp module still id frame machine) (proceed rest pending) := by
  simp only [begin, found]

/-- A loop, from its begin to its end. -/
theorem loop_reaches (kind : op.kind = .affineFor) (traces : Traces module run)
    (bounded : Bounded module (begin module id rest frame pending machine))
    (shallow : Shallow (runOp module run id frame machine)) :
    Reaches module (begin module id rest frame pending machine)
      (after (runOp module run id frame machine) (proceed rest pending)) := by
  rw [begin_loop found kind] at bounded ⊢
  rw [runOp_loop found kind, runLoop, bind_assoc] at shallow ⊢
  cases ranged : (site found).loopRange frame machine with
  | error error last =>
      rw [bind_of_error ranged]
      exact .refl _
  | ok range entry =>
      rw [ranged] at bounded
      rw [bind_of_ok ranged] at shallow ⊢
      cases first : op.regions.head? with
      | none => exact .refl _
      | some body =>
          rw [first] at bounded
          have sound := loopRange_sound ranged
          have contained := bounded _ (.refl _)
          have fits := LoopRange.overflows_eq_false sound.step (fits_index_iff.mp sound.low).2
            contained
          rw [first, require_some, pure_bind, Site.checked_eq fits, bind_pure_unit] at shallow
          rw [require_some, pure_bind, Site.checked_eq fits, bind_pure_unit]
          have low := toInt_ofInt_of_fits sound.low
          rw [← low] at shallow ⊢
          have reached := iterating_reaches traces sound.step contained rfl bounded shallow.first
          refine reached.trans ?_
          cases outcome : iterate
            (fun current => do let _ ← run body [.scalar (.int current)] frame)
            range.step (iterations (Int64.ofInt range.low).toInt range.high range.step)
            (Int64.ofInt range.low).toInt entry with
          | error error last =>
              rw [bind_of_error outcome]
              exact .refl _
          | ok _ last =>
              rw [bind_of_ok outcome]
              exact .refl _

/-- A conditional, from its begin to its end. -/
theorem conditional_reaches (kind : op.kind = .affineIf) (traces : Traces module run)
    (bounded : Bounded module (begin module id rest frame pending machine))
    (shallow : Shallow (runOp module run id frame machine)) :
    Reaches module (begin module id rest frame pending machine)
      (after (runOp module run id frame machine) (proceed rest pending)) := by
  rw [begin_conditional found kind] at bounded ⊢
  rw [runOp_conditional found kind, runConditional, bind_assoc] at shallow ⊢
  cases chosen : (site found).branch frame machine with
  | error error last =>
      rw [bind_of_error chosen]
      exact .refl _
  | ok region entry =>
      rw [chosen] at bounded
      rw [bind_of_ok chosen] at shallow ⊢
      cases region with
      | none => exact .refl _
      | some block =>
          refine (traces _ _ _ _ _ bounded shallow.first).trans ?_
          dsimp only
          cases outcome : run block [] frame entry with
          | error error last =>
              rw [bind_of_error outcome]
              exact .refl _
          | ok values last =>
              rw [bind_of_ok outcome]
              cases values <;> exact ⟨1, rfl⟩

/-- A call, from its begin to its end. -/
theorem call_reaches (kind : op.kind = .call) (traces : Traces module run)
    (bounded : Bounded module (begin module id rest frame pending machine))
    (shallow : Shallow (runOp module run id frame machine)) :
    Reaches module (begin module id rest frame pending machine)
      (after (runOp module run id frame machine) (proceed rest pending)) := by
  rw [begin_call found kind] at bounded ⊢
  rw [runOp_target found kind] at shallow ⊢
  cases named : (site found).target machine with
  | error error last =>
      rw [bind_of_error named]
      exact .refl _
  | ok target middle =>
      rw [named] at bounded
      rw [bind_of_ok named] at shallow ⊢
      cases given : op.operands.mapM (lookup frame) middle with
      | error error last =>
          rw [bind_of_error given]
          simp only [after, given]
          exact .refl _
      | ok args entry =>
          simp only [after, given] at bounded ⊢
          rw [bind_of_ok given] at shallow ⊢
          obtain ⟨outcome, reached, ran⟩ := enterFunction_reaches traces bounded shallow.first
          refine reached.trans ?_
          cases outcome with
          | error error last =>
              rw [bind_of_error ran]
              exact .refl _
          | ok values last =>
              rw [bind_of_ok ran]
              exact ⟨1, rfl⟩

end Found

/-- An operation, from its begin to its end. -/
theorem begin_reaches (traces : Traces module run)
    (bounded : Bounded module (begin module id rest frame pending machine))
    (shallow : Shallow (runOp module run id frame machine)) :
    Reaches module (begin module id rest frame pending machine)
      (after (runOp module run id frame machine) (proceed rest pending)) := by
  cases found : module.op? id with
  | none =>
      simp only [begin, runOp, found]
      exact .refl _
  | some op =>
      by_cases loop : op.kind = .affineFor
      · exact loop_reaches found loop traces bounded shallow
      by_cases conditional : op.kind = .affineIf
      · exact conditional_reaches found conditional traces bounded shallow
      by_cases call : op.kind = .call
      · exact call_reaches found call traces bounded shallow
      · rcases runOp_cases found frame with ⟨action, runs, -⟩ | kind | kind | kind
        · have begun : begin module id rest frame pending machine =
              after (runOp module still id frame machine) (proceed rest pending) := by
            simp only [begin, found]
          rw [begun, runs, runs]
          exact .refl _
        · exact absurd kind loop
        · exact absurd kind conditional
        · exact absurd kind call

/-- A list of operations, to its end. -/
theorem running_reaches (traces : Traces module run) : ∀ {ops : List OpId} {frame : Frame}
    {machine : Machine}, Bounded module (.running ops frame pending machine) →
    Shallow (runOps (runOp module run) ops frame machine) →
    Reaches module (.running ops frame pending machine)
      (settle pending (runOps (runOp module run) ops frame machine)) := by
  intro ops
  induction ops with
  | nil => exact fun _ _ => ⟨1, rfl⟩
  | cons id rest ih =>
      intro frame machine bounded shallow
      rw [runOps] at shallow ⊢
      have begun := begin_reaches traces bounded.step shallow.first
      refine .step (begun.trans ?_)
      have later := bounded.step.later begun
      cases outcome : runOp module run id frame machine with
      | error error last =>
          rw [bind_of_error outcome]
          exact .refl _
      | ok step last =>
          rw [outcome] at later
          rw [bind_of_ok outcome] at shallow ⊢
          cases step with
          | returned values => exact .refl _
          | next frame => exact ih later shallow

/-- **Big steps and small steps.** Whatever depth the blocks of a run may nest to, if it is not
exceeded then the steps get from the entry of a block to its end. -/
theorem blocks_trace (module : Module) (fuel : Nat) : Traces module (runBlock module fuel) := by
  induction fuel with
  | zero => exact fun block args frame pending machine _ shallow => absurd rfl (shallow machine)
  | succ fuel ih =>
      intro block args frame pending machine bounded shallow
      cases listed : module.block? block with
      | none =>
          simp only [enterBlock, runBlock, listed]
          exact .refl _
      | some found =>
          simp only [enterBlock, listed] at bounded ⊢
          rw [runBlock_apply listed] at shallow ⊢
          exact running_reaches ih bounded shallow

end Tracing

end State

end Machine

end AffineKernel
