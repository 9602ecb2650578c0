import AffineKernel.Proofs.Semantics.Definedness
import Mathlib.Logic.Relation

/-!
# The points of a run

At every point of a run some executions of blocks are under way, one inside of
the other, from the body of the function that runs down to the innermost one.
An *activation* is such an execution: the block, the data it was entered with,
the operations that have ended, each with the data it bound to its results, and
those that are still to come. The first of these is the one under execution. A
*point* is a chain of activations with the frame and the machine there.

A run proceeds from point to point (`Machine.Proceeds`): an operation ends and
the block goes on, or a loop, a conditional or a call enters a block. A called
function starts a chain of its own. Failures come out the way they went in: the
failure of a run from a later point is that of the run from an earlier one
(`Proceeds.fails`), and a run that fails as an operation does gets to an operation
that fails so by itself (`exists_failing`): also if the blocks that it executes
do nothing. The reason is then in the operation and its frame, unless it is the
counter of a loop (`runOp_still_fails`).

What does it mean that an operation asks for a value? By itself, the operation
stops for want of the value as soon as the value is hidden from it
(`Machine.Consults`).
-/

set_option autoImplicit false

namespace AffineKernel

/-! ## Frames -/

namespace Table

variable {κ α : Type} [DecidableEq κ]

/-- There is nothing to erase under a key without a value. -/
theorem erase_eq_self {table : Table κ α} {key : κ} (absent : table.find? key = none) :
    table.erase key = table := by
  obtain ⟨entries⟩ := table
  simp only [find?, Option.map_eq_none_iff, List.find?_eq_none] at absent
  refine congrArg Table.mk (List.filter_eq_self.mpr fun entry listed => ?_)
  simpa using absent entry listed

end Table

namespace Frame

variable {frame : Frame} {value : Value} {datum : Datum}

/-- The frame without a value. -/
def hide (frame : Frame) (value : Value) : Frame := frame.map fun scope => Table.erase scope value

/-- There is nothing to hide where a value is not defined. -/
theorem hide_eq_self (absent : frame.find? value = none) : frame.hide value = frame := by
  simp only [find?, List.findSome?_eq_none_iff] at absent
  refine (List.map_congr_left fun scope listed => ?_).trans (List.map_id frame)
  exact Table.erase_eq_self (absent scope listed)

/-- The frame after an operation has bound its results. -/
def binding (frame : Frame) (id : OpId) (bound : List Datum) : Frame :=
  Machine.defineResults frame id bound.length bound

/-- Results are bound one after the other. -/
theorem binding_append (frame : Frame) (id : OpId) (bound : List Datum) (datum : Datum) :
    frame.binding id (bound ++ [datum]) =
      (frame.binding id bound).define (.result id bound.length) datum := by
  have zipped : (List.range (bound.length + 1)).zip (bound ++ [datum]) =
      (List.range bound.length).zip bound ++ [(bound.length, datum)] := by
    rw [List.range_succ, List.zip_append (by simp)]
    rfl
  simp only [binding, Machine.defineResults, List.length_append, List.length_singleton, zipped,
    List.foldl_append, List.foldl_cons, List.foldl_nil]

/-- Surplus values of a call are dropped. -/
theorem defineResults_eq_binding (frame : Frame) (id : OpId) (count : Nat) (values : List Datum) :
    Machine.defineResults frame id count values = frame.binding id (values.take count) := by
  have zipped : (List.range count).zip values =
      (List.range (values.take count).length).zip (values.take count) := by
    refine List.ext_getElem? fun position => ?_
    simp only [List.zip, List.getElem?_zipWith, List.getElem?_take,
      List.length_take]
    grind
  simp only [binding, Machine.defineResults, zipped]

end Frame

namespace Machine

/-! ## Loops -/

section Loops

variable {machine after : Machine} {body : Int → Exec Unit} {step : Int} {error : RunError}

/-- A loop fails in the iteration in which its body fails. -/
theorem iterate_error_of {position : Nat} {middle : Machine} :
    ∀ {count : Nat} {low : Int} {machine : Machine}, position < count →
      iterate body step position low machine = .ok () middle →
      body (low + position * step) middle = .error error after →
      iterate body step count low machine = .error error after := by
  induction position with
  | zero =>
      intro count low machine small before failed
      obtain ⟨count, rfl⟩ := Nat.exists_eq_succ_of_ne_zero (Nat.ne_of_gt small)
      cases before
      rw [iterate]
      exact bind_eq_error.mpr (.inl (by simpa using failed))
  | succ position ih =>
      intro count low machine small before failed
      obtain ⟨count, rfl⟩ := Nat.exists_eq_succ_of_ne_zero (Nat.ne_of_gt (Nat.zero_lt_of_lt small))
      rw [iterate] at before ⊢
      obtain ⟨_, first, ran, before⟩ := bind_eq_ok.mp before
      refine bind_eq_error.mpr (.inr ⟨(), first, ran, ?_⟩)
      exact ih (Nat.lt_of_succ_lt_succ small) before (counter_succ low step position ▸ failed)

/-- A loop that fails gets to an iteration in which its body fails. -/
theorem exists_of_iterate_error : ∀ {count : Nat} {low : Int} {machine : Machine},
    iterate body step count low machine = .error error after →
    ∃ position middle, position < count ∧ iterate body step position low machine = .ok () middle ∧
      body (low + (position : Nat) * step) middle = .error error after := by
  intro count
  induction count with
  | zero => nofun
  | succ count ih =>
      intro low machine failed
      rw [iterate] at failed
      rcases bind_eq_error.mp failed with first | ⟨_, second, ran, later⟩
      · exact ⟨0, machine, Nat.zero_lt_succ count, rfl, by simpa using first⟩
      · obtain ⟨position, middle, small, before, failed⟩ := ih later
        refine ⟨position + 1, middle, Nat.succ_lt_succ small, ?_, ?_⟩
        · rw [iterate]
          exact bind_eq_ok.mpr ⟨(), second, ran, before⟩
        · exact counter_succ low step position ▸ failed

end Loops

/-! ## Asking for a value -/

end Machine

/-- A failure that only an operation ends in, and not the entry of a block or a function. -/
def RunError.isOwn : RunError → Bool
  | .malformed | .depthExceeded | .unknownFunction _ | .argumentMismatch .. => false
  | _ => true

/-- The name of the function that a call calls. -/
def Operation.callee? (op : Operation) : Option String :=
  (op.attr? "callee").map fun attr => attr.asText?.getD ""

namespace Machine

/-- Blocks that do nothing. -/
def still : RunBlock := fun _ _ _ => pure none

/-- An operation asks for a value: by itself, it stops for want of the value where the value is
hidden. -/
def Consults (module : Module) (id : OpId) (frame : Frame) (machine : Machine) (value : Value) :
    Prop :=
  ∃ after, runOp module still id (frame.hide value) machine = .error (.undefinedValue value) after

/-- What an operation does that executes no block: its failures have their reasons in it, and it
binds its results in the innermost scope. -/
structure Plain (site : Site) (frame : Frame) (action : Exec Step) : Prop where
  explains : FailsOnly (site.Explains frame) action
  binds : ∀ machine later after, action machine = .ok (.next later) after →
    ∃ bound, later = frame.binding site.id bound

section Found

variable {module : Module} {run : RunBlock} {id : OpId} {op : Operation} {frame : Frame}
  {machine after : Machine} {value : Value}

theorem Plain.defining {site : Site} {action : Exec Scalar}
    (explains : FailsOnly (site.Explains frame) action) :
    Plain site frame (defining site.id frame action) where
  explains := explains.andThen fun _ => .pure _
  binds machine later after ended := by
    obtain ⟨scalar, middle, -, ended⟩ := bind_eq_ok.mp ended
    cases ended
    exact ⟨[.scalar scalar], rfl⟩

theorem Plain.silent {α : Type} {site : Site} {action : Exec α}
    (explains : FailsOnly (site.Explains frame) action) :
    Plain site frame (action >>= fun _ => pure (.next frame)) where
  explains := explains.andThen fun _ => .pure _
  binds machine later after ended := by
    obtain ⟨_, middle, -, ended⟩ := bind_eq_ok.mp ended
    cases ended
    exact ⟨[], rfl⟩

/-- An operation is a loop, a conditional or a call, or it executes no block. -/
theorem runOp_cases (found : module.op? id = some op) (frame : Frame) :
    (∃ action, (∀ run, runOp module run id frame = action) ∧ Plain (site found) frame action) ∨
      op.kind = .affineFor ∨ op.kind = .affineIf ∨ op.kind = .call := by
  have defines : ∀ {action : Exec Scalar},
      (∀ run, runOp module run id frame = defining id frame action) →
      FailsOnly ((site found).Explains frame) action →
      ∃ action, (∀ run, runOp module run id frame = action) ∧ Plain (site found) frame action :=
    fun runs explains => ⟨_, runs, .defining explains⟩
  have idle : (∀ run, runOp module run id frame = (pure () >>= fun _ => pure (.next frame))) →
      ∃ action, (∀ run, runOp module run id frame = action) ∧ Plain (site found) frame action :=
    fun runs => ⟨_, runs, .silent (.pure ())⟩
  cases kind : op.kind with
  | affineFor => exact .inr (.inl rfl)
  | affineIf => exact .inr (.inr (.inl rfl))
  | call => exact .inr (.inr (.inr rfl))
  | constant =>
      exact .inl (defines (fun _ => runOp_constant found kind) (site found).constant_explains)
  | negF | exp | log | log2 | log10 | sqrt | sin | cos | tanh | floor
  | addI | subI | mulI | divSI | divUI | floorDivSI | remSI | remUI | minSI | maxSI | minUI | maxUI
  | shlI | shrSI | shrUI | andI | orI | xorI | addF | subF | mulF | divF | remF | minF | maxF
  | addFixed | subFixed | mulFixed | divFixed | minFixed | maxFixed =>
      have arithmetic : op.kind.isArithmetic = true := by rw [kind]; rfl
      exact .inl (defines (fun _ => runOp_arithmetic found arithmetic)
        (site found).arithmetic_explains)
  | cmpI =>
      exact .inl (defines (fun _ => runOp_compareInts found (.inl kind))
        (site found).compareInts_explains)
  | cmpFixed =>
      exact .inl (defines (fun _ => runOp_compareInts found (.inr kind))
        (site found).compareInts_explains)
  | cmpF =>
      exact .inl (defines (fun _ => runOp_compareFloats found kind)
        (site found).compareFloats_explains)
  | indexCast =>
      exact .inl (defines (fun _ => runOp_cast found (.inl kind)) (site found).cast_explains)
  | conversionCast =>
      exact .inl (defines (fun _ => runOp_cast found (.inr kind)) (site found).cast_explains)
  | select => exact .inl (defines (fun _ => runOp_select found kind) (site found).select_explains)
  | getBit => exact .inl (defines (fun _ => runOp_getBit found kind) (site found).getBit_explains)
  | load =>
      exact .inl (defines (fun _ => runOp_load found kind) ((site found).load_explains kind))
  | store =>
      exact .inl ⟨_, fun _ => runOp_store found kind, .silent ((site found).store_explains kind)⟩
  | yield => exact .inl (idle fun _ => runOp_idle found (.inl kind))
  | func => exact .inl (idle fun _ => runOp_idle found (.inr kind))
  | ret =>
      refine .inl ⟨_, fun _ => runOp_ret found kind, ?_, ?_⟩
      · exact (FailsOnly.mapM fun operand member =>
          (site found).lookup_explains member).andThen fun _ => .pure _
      · intro machine later after ended
        obtain ⟨_, _, -, ended⟩ := bind_eq_ok.mp ended
        cases ended
  | alloc =>
      refine .inl ⟨_, fun _ => runOp_alloc found kind, ?_, ?_⟩
      · exact ((site found).alloc_explains kind).andThen fun _ => .pure _
      · intro machine later after ended
        obtain ⟨handle, middle, -, ended⟩ := bind_eq_ok.mp ended
        cases ended
        exact ⟨[.buffer handle], rfl⟩

/-- A function fails as its body does, or it cannot be entered. -/
theorem runFunction_fails {allowed : RunError → Prop}
    (entry : ∀ error, error.isOwn = false → allowed error) {func : OpId} {name : String}
    {args : List Datum} (body : ∀ block, FailsOnly allowed (run block args [])) :
    FailsOnly allowed (runFunction module run func name args) := by
  unfold runFunction
  cases module.region? func 0 with
  | none => exact .throw (entry _ rfl)
  | some block =>
      refine (FailsOnly.require (entry _ rfl) _).andThen fun _ => ?_
      dsimp only
      split
      · exact .throw_bind (entry _ rfl)
      · exact (FailsOnly.modify _).andThen fun _ => (body block).andThen fun _ => .pure _

/-- A loop whose body does nothing. -/
theorem iterate_still (body : BlockId) (step : Int) : ∀ (count : Nat) (current : Int),
    iterate (fun current => do let _ ← still body [.scalar (.int current)] frame) step count
      current = pure ()
  | 0, _ => rfl
  | count + 1, current => by
      rw [iterate, still, pure_bind, pure_bind]
      exact iterate_still body step count (current + step)

variable (found : module.op? id = some op)
include found

/-- A call without a function to call. -/
theorem runOp_call_none (kind : op.kind = .call) (frame : Frame)
    (unknown : ∀ callee func, op.callee? = some callee → module.function? callee ≠ some func) :
    ∃ error, (site found).Explains frame error ∧ (∀ value, error ≠ .undefinedValue value) ∧
      ∀ run, runOp module run id frame = throw error := by
  cases held : op.attr? "callee" with
  | none =>
      refine ⟨(site found).missing "callee", trivial, (fun _ same => by cases same), fun run => ?_⟩
      rw [runOp, found, require_some, pure_bind]
      simp only [kind, held]
      rfl
  | some attr =>
      have none : module.function? (attr.asText?.getD "") = none := by
        refine Option.eq_none_iff_forall_ne_some.mpr fun func => unknown _ func ?_
        simp [Operation.callee?, held]
      refine ⟨.unknownFunction (attr.asText?.getD ""), trivial, (fun _ same => by cases same),
        fun run => ?_⟩
      rw [runOp, found, require_some, pure_bind]
      simp only [kind, held, pure_bind, none]

/-- A call of a function. -/
theorem runOp_call_some (kind : op.kind = .call) {callee : String} {func : OpId}
    (known : op.callee? = some callee) (target : module.function? callee = some func) :
    runOp module run id frame = op.operands.mapM (lookup frame) >>= fun args =>
      runFunction module run func callee args >>= fun values =>
        pure (.next (frame.binding id (values.take op.results.length))) := by
  obtain ⟨attr, held, rfl⟩ := Option.map_eq_some_iff.mp known
  rw [runOp, found, require_some, pure_bind]
  simp only [kind, held, pure_bind, target, Frame.defineResults_eq_binding]

/-- By itself, an operation fails for a reason in it, or because its counter leaves the words. -/
theorem runOp_still_fails :
    FailsOnly (fun error => (site found).Explains frame error ∨
        error = .overflow id op.kind ∧ (site found).OverCounts frame)
      (runOp module still id frame) := by
  have own : ∀ {α : Type} {action : Exec α}, FailsOnly ((site found).Explains frame) action →
      FailsOnly (fun error => (site found).Explains frame error ∨
        error = .overflow id op.kind ∧ (site found).OverCounts frame) action :=
    fun explains => explains.mono fun _ => .inl
  rcases runOp_cases found frame with ⟨action, runs, plain⟩ | kind | kind | kind
  · exact runs still ▸ own plain.explains
  · rw [runOp_loop found kind, runLoop, bind_assoc]
    refine (own ((site found).loopRange_explains kind)).bind fun range before after ranged => ?_
    refine FailsOnly.andThen ((own (.require trivial _)).andThen fun body => ?_) fun _ => .pure _
    rw [iterate_still, pure_bind]
    cases counts : range.overflows with
    | false => exact .pure ()
    | true => exact .throw (.inr ⟨rfl, kind, range, before, after, ranged, counts⟩)
  · rw [runOp_conditional found kind, runConditional, bind_assoc]
    refine (own ((site found).branch_explains kind)).andThen fun region => ?_
    cases region <;> exact .pure _
  · by_cases known : ∃ callee func, op.callee? = some callee ∧ module.function? callee = some func
    · obtain ⟨callee, func, known, target⟩ := known
      rw [runOp_call_some found kind known target]
      refine own ((FailsOnly.mapM fun operand member => (site found).lookup_explains member).andThen
        fun args => ?_)
      refine (runFunction_fails (fun error entry => ?_) fun _ => .pure none).andThen fun _ => .pure _
      cases error <;> trivial
    · obtain ⟨error, reason, -, runs⟩ := runOp_call_none found kind frame
        fun callee func named target => known ⟨callee, func, named, target⟩
      exact runs still ▸ .throw (.inl reason)

/-- What an operation lacks by itself is an operand without a definition. -/
theorem undefined_of_still
    (failed : runOp module still id frame machine = .error (.undefinedValue value) after) :
    value ∈ op.operands ∧ frame.find? value = none := by
  rcases runOp_still_fails found machine _ after failed with reason | ⟨other, -⟩
  · exact reason
  · cases other

/-- What an operation asks for is one of its operands. -/
theorem Consults.operand (consults : Consults module id frame machine value) :
    value ∈ op.operands := by
  obtain ⟨after, failed⟩ := consults
  exact (undefined_of_still found failed).1

/-- What an operation lacks by itself, it lacks whatever its blocks do. -/
theorem runOp_of_still
    (failed : runOp module still id frame machine = .error (.undefinedValue value) after) :
    runOp module run id frame machine = .error (.undefinedValue value) after := by
  rcases runOp_cases found frame with ⟨action, runs, -⟩ | kind | kind | kind
  · rw [runs] at failed ⊢
    exact failed
  · rw [runOp_loop found kind, runLoop, bind_assoc] at failed ⊢
    rcases bind_eq_error.mp failed with ranged | ⟨range, middle, -, later⟩
    · exact bind_eq_error.mpr (.inl ranged)
    · refine absurd later (Spares.ne (.andThen ?_ fun _ => .pure _) middle after)
      refine (FailsOnly.require (fun same => by cases same) _).andThen fun body => ?_
      rw [iterate_still, pure_bind]
      exact (site found).checked_fails (fun same => by cases same) _
  · rw [runOp_conditional found kind, runConditional, bind_assoc] at failed ⊢
    rcases bind_eq_error.mp failed with chosen | ⟨region, middle, -, later⟩
    · exact bind_eq_error.mpr (.inl chosen)
    · refine absurd later (Spares.ne (.andThen ?_ fun outcome => ?_) middle after)
      · cases region <;> exact .pure none
      · cases outcome <;> exact .pure _
  · by_cases known : ∃ callee func, op.callee? = some callee ∧ module.function? callee = some func
    · obtain ⟨callee, func, known, target⟩ := known
      rw [runOp_call_some found kind known target] at failed ⊢
      rcases bind_eq_error.mp failed with lacking | ⟨args, middle, -, later⟩
      · exact bind_eq_error.mpr (.inl lacking)
      · refine absurd later (Spares.ne (.andThen ?_ fun _ => .pure _) middle after)
        exact runFunction_fails (fun error entry same => by subst same; cases entry)
          fun _ => .pure none
    · obtain ⟨error, -, other, runs⟩ := runOp_call_none found kind frame
        fun callee func named target => known ⟨callee, func, named, target⟩
      rw [runs] at failed ⊢
      exact failed

/-- A loop or a conditional leaves the frame as it was. -/
theorem runOp_keeps_frame (kind : op.kind = .affineFor ∨ op.kind = .affineIf) {later : Frame}
    (ended : runOp module run id frame machine = .ok (.next later) after) : later = frame := by
  rcases kind with kind | kind
  · rw [runOp_loop found kind] at ended
    obtain ⟨_, _, -, ended⟩ := bind_eq_ok.mp ended
    cases ended
    rfl
  · rw [runOp_conditional found kind] at ended
    obtain ⟨outcome, _, -, ended⟩ := bind_eq_ok.mp ended
    cases outcome with
    | none =>
        cases ended
        rfl
    | some values => cases ended

/-- What an operation adds to the frame are its results, in the innermost scope. -/
theorem runOp_binds {later : Frame}
    (ended : runOp module run id frame machine = .ok (.next later) after) :
    ∃ bound, later = frame.binding id bound := by
  rcases runOp_cases found frame with ⟨action, runs, plain⟩ | kind | kind | kind
  · exact plain.binds machine later after (runs run ▸ ended)
  · exact ⟨[], runOp_keeps_frame found (.inl kind) ended⟩
  · exact ⟨[], runOp_keeps_frame found (.inr kind) ended⟩
  · by_cases known : ∃ callee func, op.callee? = some callee ∧ module.function? callee = some func
    · obtain ⟨callee, func, known, target⟩ := known
      rw [runOp_call_some found kind known target] at ended
      obtain ⟨args, _, -, ended⟩ := bind_eq_ok.mp ended
      obtain ⟨values, _, -, ended⟩ := bind_eq_ok.mp ended
      cases ended
      exact ⟨values.take op.results.length, rfl⟩
    · obtain ⟨error, -, -, runs⟩ := runOp_call_none found kind frame
        fun callee func named target => known ⟨callee, func, named, target⟩
      rw [runs] at ended
      cases ended

end Found

end Machine

/-! ## Points -/

/-- An execution of a block that is under way. -/
structure Activation where
  block : BlockId
  /-- The data that the block was entered with. -/
  args : List Datum
  /-- The operations that have ended, each with the data that it bound to its results. -/
  done : List (OpId × List Datum)
  /-- The operation under execution, and those after it. -/
  rest : List OpId

/-- A value is an argument that the block was entered with, or a result that was bound since. -/
def Activation.Binds (activation : Activation) (value : Value) (datum : Datum) : Prop :=
  match value with
  | .arg block position => block = activation.block ∧ activation.args[position]? = some datum
  | .result op position => ∃ bound, (op, bound) ∈ activation.done ∧ bound[position]? = some datum

/-- An operation of the block has ended. -/
def Activation.record (activation : Activation) (id : OpId) (bound : List Datum)
    (rest : List OpId) : Activation :=
  { activation with done := activation.done ++ [(id, bound)], rest := rest }

/-- A point of a run. -/
structure Point where
  /-- The function that runs. -/
  func : OpId
  /-- The innermost execution of a block. -/
  inner : Activation
  /-- The executions around it, up to that of the body of the function. -/
  outer : List Activation
  frame : Frame
  machine : Machine
  /-- How deep blocks may nest from here. -/
  fuel : Nat

namespace Point

/-- The executions of blocks that are under way, innermost first. -/
def trail (point : Point) : List Activation := point.inner :: point.outer

/-- A function is entered, from an empty frame. -/
def entry (func : OpId) (body : BlockId) (ops : List OpId) (args : List Datum) (machine : Machine)
    (fuel : Nat) : Point :=
  ⟨func, ⟨body, args, [], ops⟩, [], Frame.enter [] body args, machine, fuel⟩

/-- A block is entered below the operation under execution. -/
def enter (point : Point) (block : BlockId) (ops : List OpId) (args : List Datum)
    (machine : Machine) (fuel : Nat) : Point :=
  ⟨point.func, ⟨block, args, [], ops⟩, point.trail, point.frame.enter block args, machine, fuel⟩

/-- The operation under execution has ended. -/
def record (point : Point) (id : OpId) (bound : List Datum) (rest : List OpId)
    (machine : Machine) : Point :=
  { point with
    inner := point.inner.record id bound rest
    frame := point.frame.binding id bound
    machine := machine }

/-- The run of the innermost block from a point on fails. -/
def Fails (module : Module) (point : Point) (error : RunError) : Prop :=
  ∃ after, Machine.runOps (Machine.runOp module (Machine.runBlock module point.fuel))
    point.inner.rest point.frame point.machine = .error error after

end Point

namespace Machine

/-- A run gets from a point to another one. -/
inductive Proceeds (module : Module) : Point → Point → Prop where
  /-- The operation under execution ends. -/
  | next {point : Point} {id : OpId} {rest : List OpId} {bound : List Datum} {after : Machine} :
      point.inner.rest = id :: rest →
      runOp module (runBlock module point.fuel) id point.frame point.machine =
        .ok (.next (point.frame.binding id bound)) after →
      Proceeds module point (point.record id bound rest after)
  /-- A loop begins an iteration, after the ones before it. -/
  | iteration {point : Point} {id : OpId} {rest : List OpId} {op : Operation} {body : BlockId}
      {block : Block} {fuel : Nat} {range : LoopRange} {position : Nat} {entry middle : Machine} :
      point.inner.rest = id :: rest → point.fuel = fuel + 1 →
      module.op? id = some op → op.kind = .affineFor → op.regions.head? = some body →
      module.block? body = some block →
      (⟨module, id, op⟩ : Site).loopRange point.frame point.machine = .ok range entry →
      position < iterations range.low range.high range.step →
      iterate (fun current => do
        let _ ← runBlock module (fuel + 1) body [.scalar (.int current)] point.frame)
        range.step position range.low entry = .ok () middle →
      Proceeds module point (point.enter body block.ops
        [.scalar (.int (range.low + position * range.step))] middle fuel)
  /-- A conditional takes a branch. -/
  | branch {point : Point} {id : OpId} {rest : List OpId} {op : Operation} {body : BlockId}
      {block : Block} {fuel : Nat} {entry : Machine} :
      point.inner.rest = id :: rest → point.fuel = fuel + 1 →
      module.op? id = some op → op.kind = .affineIf → module.block? body = some block →
      (⟨module, id, op⟩ : Site).branch point.frame point.machine = .ok (some body) entry →
      Proceeds module point (point.enter body block.ops [] entry fuel)
  /-- A function is called. -/
  | call {point : Point} {id : OpId} {rest : List OpId} {op : Operation} {callee : String}
      {func : OpId} {body : BlockId} {block : Block} {fuel : Nat} {args : List Datum}
      {entry : Machine} :
      point.inner.rest = id :: rest → point.fuel = fuel + 1 →
      module.op? id = some op → op.kind = .call → op.callee? = some callee →
      module.function? callee = some func → module.region? func 0 = some body →
      module.block? body = some block → args.length = block.args.length →
      op.operands.mapM (lookup point.frame) point.machine = .ok args entry →
      Proceeds module point (.entry func body block.ops args
        { entry with log := entry.log.push (.interpret callee args.length) } fuel)

/-! ## Failures -/

section Failures

variable {module : Module} {point later : Point} {error : RunError}

/-- The run of a block that has operations. -/
theorem runBlock_apply {fuel : Nat} {body : BlockId} {block : Block} {args : List Datum}
    {frame : Frame} (listed : module.block? body = some block) :
    runBlock module (fuel + 1) body args frame =
      runOps (runOp module (runBlock module fuel)) block.ops (frame.enter body args) := by
  simp only [runBlock, listed, require, pure_bind]

/-- A block fails as its operation under execution does. -/
theorem fails_of_runOp {id : OpId} {rest : List OpId}
    (current : point.inner.rest = id :: rest) (after : Machine)
    (failed : runOp module (runBlock module point.fuel) id point.frame point.machine =
      .error error after) : point.Fails module error := by
  refine ⟨after, ?_⟩
  rw [current, runOps]
  exact bind_eq_error.mpr (.inl failed)

/-- **Failures come out.** If the run from a later point fails, then the run from an earlier one
fails in the same way. -/
theorem Proceeds.fails (proceeds : Proceeds module point later) (failed : later.Fails module error) :
    point.Fails module error := by
  obtain ⟨after, failed⟩ := failed
  cases proceeds with
  | next current ended =>
      refine ⟨after, ?_⟩
      rw [current, runOps]
      exact bind_eq_error.mpr (.inr ⟨_, _, ended, failed⟩)
  | @iteration id rest op body block fuel range position entry middle current deep found kind first
      listed ranged small before =>
      have ran : runBlock module point.fuel body
          [.scalar (.int (range.low + position * range.step))] point.frame middle =
            .error error after := by
        rw [deep, runBlock_apply listed]
        exact failed
      refine fails_of_runOp current after ?_
      rw [runOp_loop found kind]
      refine bind_eq_error.mpr (.inl (bind_eq_error.mpr (.inr ⟨range, entry, ranged, ?_⟩)))
      rw [first, require, pure_bind, deep]
      refine bind_eq_error.mpr (.inl (iterate_error_of small before (bind_eq_error.mpr (.inl ?_))))
      rwa [deep] at ran
  | @branch id rest op body block fuel entry current deep found kind listed chosen =>
      refine fails_of_runOp current after ?_
      rw [runOp_conditional found kind]
      refine bind_eq_error.mpr (.inl (bind_eq_error.mpr (.inr ⟨some body, entry, chosen, ?_⟩)))
      simp only [deep, runBlock_apply listed]
      exact failed
  | @call id rest op callee func body block fuel args entry current deep found kind known target
      region listed arity given =>
      refine fails_of_runOp current after ?_
      rw [runOp_call_some found kind known target]
      refine bind_eq_error.mpr (.inr ⟨args, entry, given, bind_eq_error.mpr (.inl ?_)⟩)
      rw [runFunction_apply region listed arity, deep, runBlock_apply listed]
      exact bind_eq_error.mpr (.inl failed)

theorem fails_of_reaches (reaches : Relation.ReflTransGen (Proceeds module) point later)
    (failed : later.Fails module error) : point.Fails module error := by
  induction reaches with
  | refl => exact failed
  | tail _ proceeds ih => exact ih (proceeds.fails failed)

/-- A block that fails with a failure of an operation has been entered. -/
theorem runBlock_own {fuel : Nat} {body : BlockId} {args : List Datum} {frame : Frame}
    {machine after : Machine} (own : error.isOwn = true)
    (failed : runBlock module fuel body args frame machine = .error error after) :
    ∃ less block, fuel = less + 1 ∧ module.block? body = some block ∧
      runOps (runOp module (runBlock module less)) block.ops (frame.enter body args) machine =
        .error error after := by
  cases fuel with
  | zero =>
      cases failed
      cases own
  | succ less =>
      cases listed : module.block? body with
      | none =>
          simp only [runBlock, listed, require] at failed
          cases failed
          cases own
      | some block => exact ⟨less, block, rfl, rfl, runBlock_apply listed ▸ failed⟩

/-- A function that fails with a failure of an operation has been entered. -/
theorem runFunction_own {run : RunBlock} {func : OpId} {name : String} {args : List Datum}
    {machine after : Machine} (own : error.isOwn = true)
    (failed : runFunction module run func name args machine = .error error after) :
    ∃ body block, module.region? func 0 = some body ∧ module.block? body = some block ∧
      args.length = block.args.length ∧
      run body args [] { machine with log := machine.log.push (.interpret name args.length) } =
        .error error after := by
  cases region : module.region? func 0 with
  | none =>
      simp only [runFunction, region] at failed
      cases failed
      cases own
  | some body =>
      cases listed : module.block? body with
      | none =>
          simp only [runFunction, region, listed, require] at failed
          cases failed
          cases own
      | some block =>
          by_cases arity : args.length = block.args.length
          · rw [runFunction_apply region listed arity] at failed
            rcases bind_eq_error.mp failed with inside | ⟨_, _, -, ⟨⟩⟩
            exact ⟨body, block, rfl, listed, arity, inside⟩
          · simp only [runFunction, region, listed, require, pure_bind, ne_eq, arity,
              not_false_eq_true, ↓reduceIte] at failed
            cases failed
            cases own

/-- An operation that fails does so by itself, or it has entered a block that fails so. -/
theorem fails_or_proceeds {id : OpId} {rest : List OpId} {after : Machine}
    (own : error.isOwn = true) (current : point.inner.rest = id :: rest)
    (failed : runOp module (runBlock module point.fuel) id point.frame point.machine =
      .error error after) :
    (∃ last, runOp module still id point.frame point.machine = .error error last) ∨
      ∃ later, Proceeds module point later ∧ later.fuel < point.fuel ∧
        later.Fails module error := by
  cases found : module.op? id with
  | none =>
      simp only [runOp, found, require] at failed
      cases failed
      cases own
  | some op =>
      rcases runOp_cases found point.frame with ⟨action, runs, -⟩ | kind | kind | kind
      · exact .inl ⟨after, by rw [runs] at failed ⊢; exact failed⟩
      · rw [runOp_loop found kind, runLoop, bind_assoc] at failed ⊢
        rcases bind_eq_error.mp failed with alone | ⟨range, entry, ranged, failed⟩
        · exact .inl ⟨after, bind_eq_error.mpr (.inl alone)⟩
        · cases first : op.regions.head? with
          | none =>
              rw [first] at failed
              cases failed
              cases own
          | some body =>
              rw [first, require_some, pure_bind, bind_assoc] at failed
              rcases bind_eq_error.mp failed with failed | ⟨_, counted, -, failed⟩
              · obtain ⟨position, middle, small, before, failed⟩ := exists_of_iterate_error failed
                rcases bind_eq_error.mp failed with inside | ⟨_, _, -, ⟨⟩⟩
                obtain ⟨fuel, block, deep, listed, inside⟩ := runBlock_own own inside
                rw [deep] at before
                exact .inr ⟨_, .iteration current deep found kind first listed ranged small before,
                  by rw [deep]; exact Nat.lt_succ_self fuel, after, inside⟩
              · -- The counter leaves the words after as many iterations of a body that does nothing.
                refine .inl ⟨entry, bind_eq_error.mpr (.inr ⟨range, entry, ranged, ?_⟩)⟩
                rw [require_some, pure_bind, iterate_still, pure_bind]
                cases counts : range.overflows with
                | false =>
                    rw [counts] at failed
                    cases failed
                | true =>
                    rw [counts] at failed
                    cases failed
                    rfl
      · rw [runOp_conditional found kind, runConditional, bind_assoc] at failed ⊢
        rcases bind_eq_error.mp failed with alone | ⟨region, entry, chosen, failed⟩
        · exact .inl ⟨after, bind_eq_error.mpr (.inl alone)⟩
        · rcases bind_eq_error.mp failed with failed | ⟨outcome, _, -, later⟩
          · cases region with
            | none => cases failed
            | some body =>
                obtain ⟨fuel, block, deep, listed, inside⟩ := runBlock_own own failed
                exact .inr ⟨_, .branch current deep found kind listed chosen,
                  by rw [deep]; exact Nat.lt_succ_self fuel, after, inside⟩
          · cases outcome <;> cases later
      · by_cases known : ∃ callee func, op.callee? = some callee ∧
            module.function? callee = some func
        · obtain ⟨callee, func, known, target⟩ := known
          rw [runOp_call_some found kind known target] at failed ⊢
          rcases bind_eq_error.mp failed with alone | ⟨args, entry, given, failed⟩
          · exact .inl ⟨after, bind_eq_error.mpr (.inl alone)⟩
          · rcases bind_eq_error.mp failed with inside | ⟨_, _, -, ⟨⟩⟩
            obtain ⟨body, block, region, listed, arity, inside⟩ := runFunction_own own inside
            obtain ⟨fuel, other, deep, listed', inside⟩ := runBlock_own own inside
            obtain rfl := Option.some.inj (listed.symm.trans listed')
            exact .inr ⟨_, .call current deep found kind known target region listed arity given,
              by rw [deep]; exact Nat.lt_succ_self fuel, after, inside⟩
        · obtain ⟨other, -, -, runs⟩ := runOp_call_none found kind point.frame
            fun callee func named target => known ⟨callee, func, named, target⟩
          exact .inl ⟨after, by rw [runs] at failed ⊢; exact failed⟩

/-- **Failures go in.** A run that fails as an operation does gets to an operation that fails so by
itself. -/
theorem exists_failing (own : error.isOwn = true) : ∀ {fuel : Nat} {point : Point},
    point.fuel = fuel → point.Fails module error →
    ∃ last id rest after, Relation.ReflTransGen (Proceeds module) point last ∧
      last.inner.rest = id :: rest ∧
      runOp module still id last.frame last.machine = .error error after := by
  intro fuel
  induction fuel using Nat.strongRecOn with
  | ind fuel inward =>
  intro point deep failed
  obtain ⟨rest, remaining⟩ : ∃ rest, point.inner.rest = rest := ⟨_, rfl⟩
  induction rest generalizing point with
  | nil =>
      obtain ⟨after, failed⟩ := failed
      rw [remaining] at failed
      cases failed
  | cons id rest onward =>
      obtain ⟨after, failed⟩ := failed
      rw [remaining, runOps] at failed
      rcases bind_eq_error.mp failed with failed | ⟨step, middle, ended, failed⟩
      · rcases fails_or_proceeds own remaining failed with
          ⟨last, alone⟩ | ⟨later, proceeds, less, failed⟩
        · exact ⟨point, id, rest, last, .refl, remaining, alone⟩
        · obtain ⟨last, id, rest, after, reaches, current, alone⟩ :=
            inward later.fuel (deep ▸ less) rfl failed
          exact ⟨last, id, rest, after, .head proceeds reaches, current, alone⟩
      · cases step with
        | returned values => cases failed
        | next frame =>
            cases found : module.op? id with
            | none =>
                simp only [runOp, found, require] at ended
                cases ended
            | some op =>
                obtain ⟨bound, rfl⟩ := runOp_binds found ended
                have proceeds : Proceeds module point (point.record id bound rest middle) :=
                  .next remaining ended
                obtain ⟨last, id, rest, after, reaches, current, alone⟩ :=
                  onward (show (point.record id bound rest middle).fuel = fuel from deep)
                    ⟨after, failed⟩ rfl
                exact ⟨last, id, rest, after, .head proceeds reaches, current, alone⟩

/-- An operation that lacks a value by itself asks for it where it is not defined. -/
theorem consults_of_still {id : OpId} {frame : Frame} {value : Value} {machine after : Machine}
    (lacking : runOp module still id frame machine = .error (.undefinedValue value) after) :
    Consults module id frame machine value ∧ frame.find? value = none := by
  cases found : module.op? id with
  | none =>
      simp only [runOp, found, require] at lacking
      cases lacking
  | some op =>
      have absent := (undefined_of_still found lacking).2
      exact ⟨⟨after, (Frame.hide_eq_self absent).symm ▸ lacking⟩, absent⟩

end Failures

end Machine

end AffineKernel
