import AffineKernel.Proofs.IR.Enclosure
import AffineKernel.Proofs.IR.Signature
import AffineKernel.Proofs.Semantics.Origins

/-!
# Undefined values

When does a run fail because a value is not defined? In a module whose
operations use visible values only, a scalar that is visible inside of a
function is defined by the time it is read, for the operation or the block that
defines it has run before in the same frame. There are two exceptions. A
function starts from an empty frame, so what it uses from outside of its body is
not defined in it (`Module.Borrows`); and a call defines no result if the
function that it calls returned none (`Machine.Unanswered`).

The argument follows one scalar, `value`, through a run. An action *spares* it
when the action never fails for want of it. What every operation has to do is to
keep the scalar in the frame, or to put it there, where it is visible to the
operations that come next (`runOps_spares`); the rest is by induction on the
depth to which blocks nest.
-/

set_option autoImplicit false

namespace AffineKernel

namespace Machine

variable {α β : Type} {value : Value}

/-- An action never fails because a value is not defined. -/
abbrev Spares (value : Value) (action : Exec α) : Prop :=
  FailsOnly (fun error => error ≠ .undefinedValue value) action

/-- An action that spares a value does not fail for want of it. -/
theorem Spares.ne {action : Exec α} (spares : Spares value action) (machine after : Machine) :
    action machine ≠ .error (.undefinedValue value) after :=
  fun failed => spares machine _ after failed rfl

/-- An action spares a value, and what it ends in is good. -/
def Serves (value : Value) (action : Exec α) (good : α → Prop) : Prop :=
  Spares value action ∧ ∀ machine a after, action machine = .ok a after → good a

namespace Serves

variable {action : Exec β} {next : β → Exec α} {good : α → Prop}

theorem pure {a : α} (holds : good a) : Serves value (Pure.pure a : Exec α) good := by
  refine ⟨.pure a, fun machine b after same => ?_⟩
  cases same
  exact holds

theorem throw {error : RunError} (other : error ≠ .undefinedValue value) :
    Serves value (MonadExcept.throw error : Exec α) good :=
  ⟨.throw other, fun _ _ _ same => by cases same⟩

theorem bind (first : Spares value action)
    (second : ∀ b before after, action before = .ok b after → Serves value (next b) good) :
    Serves value (action >>= next) good := by
  refine ⟨first.bind fun b before after ran => (second b before after ran).1, ?_⟩
  intro machine a last same
  simp only [Bind.bind, EStateM.bind] at same
  cases ran : action machine with
  | ok b middle =>
      rw [ran] at same
      exact (second b machine middle ran).2 middle a last same
  | error error middle =>
      rw [ran] at same
      cases same

end Serves

/-! ## Operands -/

/-- A value is defined, if it is among the values that are read. -/
def Ready (value : Value) (frame : Frame) (values : List Value) : Prop :=
  value ∈ values → (frame.find? value).isSome = true

/-- An operation whose failures have their reasons in it spares its operands, if they are defined. -/
theorem FailsOnly.spares {site : Site} {frame : Frame} {action : Exec α}
    (explains : FailsOnly (site.Explains frame) action)
    (ready : Ready value frame site.op.operands) : Spares value action := by
  refine explains.mono fun error reason same => ?_
  subst same
  have defined := ready reason.1
  rw [reason.2] at defined
  cases defined

/-! ## One operation -/

/-- A call to a function that can return no value. -/
def Unanswered (module : Module) (id : OpId) : Prop :=
  ∃ op callee func, module.op? id = some op ∧ op.kind = .call ∧
    (op.attr? "callee").bind Attribute.asText? = some callee ∧
    module.function? callee = some func ∧ ∃ depth args before after,
      runFunction module (runBlock module depth) func callee args before = .ok [] after

/-- What an operation leaves in the frame when the block goes on: its result, if it has one. -/
def Defined (module : Module) (id : OpId) (op : Operation) (frame later : Frame) : Prop :=
  later = frame ∧ (op.results = [] ∨ Unanswered module id) ∨
    ∃ datum, later = frame.define (.result id 0) datum

section Found

variable {module : Module} {depth : Nat} {id : OpId} {op : Operation} {frame : Frame}
  (found : module.op? id = some op)
include found

theorem runOp_call_unknown {run : RunBlock} (kind : op.kind = .call) {callee : String}
    (known : (op.attr? "callee").bind Attribute.asText? = some callee)
    (target : module.function? callee = none) :
    runOp module run id frame = throw (.unknownFunction callee) := by
  obtain ⟨attr, held, text⟩ := Option.bind_eq_some_iff.mp known
  rw [runOp, found, require_some, pure_bind]
  simp only [kind, held, text, pure_bind, Option.getD_some, target]

theorem runOp_call {run : RunBlock} (kind : op.kind = .call) {callee : String}
    (known : (op.attr? "callee").bind Attribute.asText? = some callee) {func : OpId}
    (target : module.function? callee = some func) :
    runOp module run id frame = op.operands.mapM (lookup frame) >>= fun args =>
      runFunction module run func callee args >>= fun values =>
        pure (.next (defineResults frame id op.results.length values)) := by
  obtain ⟨attr, held, text⟩ := Option.bind_eq_some_iff.mp known
  rw [runOp, found, require_some, pure_bind]
  simp only [kind, held, text, pure_bind, Option.getD_some, target]

/-- An operation ends well for a value: it spares the value, and the block goes on with a frame as it
should be. -/
def Settles (value : Value) (_ : module.op? id = some op) (depth : Nat) (frame : Frame) : Prop :=
  Serves value (runOp module (runBlock module depth) id frame) fun step =>
    ∀ later, step = .next later → Defined module id op frame later

theorem defining_settles {action : Exec Scalar}
    (runs : runOp module (runBlock module depth) id frame = defining id frame action)
    (spares : Spares value action) : Settles value found depth frame := by
  rw [Settles, runs]
  refine .bind spares fun scalar _ _ _ => .pure fun later same => ?_
  cases same
  exact .inr ⟨_, rfl⟩

/-- An operation that leaves the frame as it was. -/
theorem silent_settles {action : Exec β}
    (runs : runOp module (runBlock module depth) id frame =
      (action >>= fun _ => pure (.next frame)))
    (spares : Spares value action) (none : op.results = []) : Settles value found depth frame := by
  rw [Settles, runs]
  refine .bind spares fun _ _ _ _ => .pure fun later same => ?_
  cases same
  exact .inl ⟨rfl, .inl none⟩

variable (ready : Ready value frame op.operands)
include ready

/-- The regions of an operation spare a value, entered with as many data as they have arguments. -/
def RegionsSpare (value : Value) (module : Module) (depth : Nat) (op : Operation) (frame : Frame) :
    Prop :=
  ∀ region ∈ op.regions, ∀ block args, module.block? region = some block →
    args.length = block.args.length → Spares value (runBlock module depth region args frame)

theorem loop_settles (regions : RegionsSpare value module depth op frame)
    (kind : op.kind = .affineFor) (obeys : op.Admits True module .loop) :
    Settles value found depth frame := by
  obtain ⟨-, -, -, ⟨body, bodies, args⟩, none⟩ := obeys
  obtain ⟨block, listed, one⟩ := Option.map_eq_some_iff.mp args
  refine silent_settles found (runOp_loop found kind) ?_ none
  refine (((site found).loopRange_explains kind).spares ready).andThen fun range => ?_
  rw [bodies, List.head?_cons, require_some, pure_bind]
  refine FailsOnly.andThen (.iterate (fun number => ?_) _ _ _) fun _ =>
    (site found).checked_fails nofun _
  exact (regions body (by simp [bodies]) block _ listed (by simp [one])).andThen fun _ => .pure ()

theorem conditional_settles (regions : RegionsSpare value module depth op frame)
    (kind : op.kind = .affineIf) (obeys : op.Admits True module .conditional) :
    Settles value found depth frame := by
  obtain ⟨-, -, args, none⟩ := obeys
  rw [Settles, runOp_conditional found kind, runConditional, bind_assoc]
  refine .bind (((site found).branch_explains kind).spares ready) fun branch _ _ chosen => ?_
  cases branch with
  | none =>
      refine .bind (.pure _) fun outcome _ _ same => ?_
      cases same
      refine .pure fun later same => ?_
      cases same
      exact .inl ⟨rfl, .inl none⟩
  | some body =>
      have inside : body ∈ op.regions := (site found).mem_regions_of_branch chosen
      obtain ⟨block, listed, empty⟩ := Option.map_eq_some_iff.mp (args body inside)
      refine .bind (regions body inside block [] listed (by simp [empty])) fun outcome _ _ _ => ?_
      cases outcome with
      | none =>
          refine .pure fun later same => ?_
          cases same
          exact .inl ⟨rfl, .inl none⟩
      | some values => exact .pure fun later same => by cases same

/-- The functions of a module spare a value. -/
def FunctionsSpare (value : Value) (module : Module) (depth : Nat) : Prop :=
  ∀ callee func args, module.function? callee = some func →
    Spares value (runFunction module (runBlock module depth) func callee args)

theorem call_settles (functions : FunctionsSpare value module depth) (kind : op.kind = .call)
    (obeys : op.Admits True module .call) : Settles value found depth frame := by
  obtain ⟨⟨callee, known⟩, results⟩ := obeys
  cases target : module.function? callee with
  | none =>
      rw [Settles, runOp_call_unknown found kind known target]
      exact .throw (by simp)
  | some func =>
      rw [Settles, runOp_call found kind known target]
      refine .bind (.mapM fun operand member => ((site found).lookup_explains member).spares ready) fun args _ _ _ => ?_
      refine .bind (functions callee func args target) fun values before after ran => .pure ?_
      intro later same
      cases same
      rcases results with none | ⟨dtype, one⟩
      · exact .inl ⟨by rw [none]; rfl, .inl none⟩
      · rw [one]
        cases values with
        | nil =>
            exact .inl ⟨rfl, .inr ⟨op, callee, func, found, kind, known, target, depth, args, before,
              after, ran⟩⟩
        | cons datum rest => exact .inr ⟨datum, rfl⟩

/-- **One operation.** -/
theorem runOp_settles (obeys : op.ObeysExactly module)
    (regions : RegionsSpare value module depth op frame)
    (functions : FunctionsSpare value module depth) : Settles value found depth frame := by
  rw [Operation.ObeysExactly] at obeys
  have defines : ∀ {action : Exec Scalar},
      runOp module (runBlock module depth) id frame = defining id frame action →
      Spares value action → Settles value found depth frame := defining_settles found
  cases kind : op.kind with
  | constant => exact defines (runOp_constant found kind) ((site found).constant_explains.spares ready)
  | negF | exp | log | log2 | log10 | sqrt | sin | cos | tanh | floor
  | addI | subI | mulI | divSI | divUI | floorDivSI | remSI | remUI | minSI | maxSI | minUI | maxUI
  | shlI | shrSI | shrUI | andI | orI | xorI | addF | subF | mulF | divF | remF | minF | maxF
  | addFixed | subFixed | mulFixed | divFixed | minFixed | maxFixed =>
      have arithmetic : op.kind.isArithmetic = true := by rw [kind]; rfl
      exact defines (runOp_arithmetic found arithmetic) ((site found).arithmetic_explains.spares ready)
  | cmpI => exact defines (runOp_compareInts found (.inl kind)) ((site found).compareInts_explains.spares ready)
  | cmpFixed =>
      exact defines (runOp_compareInts found (.inr kind)) ((site found).compareInts_explains.spares ready)
  | cmpF => exact defines (runOp_compareFloats found kind) ((site found).compareFloats_explains.spares ready)
  | indexCast => exact defines (runOp_cast found (.inl kind)) ((site found).cast_explains.spares ready)
  | conversionCast => exact defines (runOp_cast found (.inr kind)) ((site found).cast_explains.spares ready)
  | select => exact defines (runOp_select found kind) ((site found).select_explains.spares ready)
  | getBit => exact defines (runOp_getBit found kind) ((site found).getBit_explains.spares ready)
  | load => exact defines (runOp_load found kind) (((site found).load_explains kind).spares ready)
  | alloc =>
      rw [Settles, runOp_alloc found kind]
      refine .bind (((site found).alloc_explains kind).spares ready) fun handle _ _ _ => .pure fun later same => ?_
      cases same
      exact .inr ⟨_, rfl⟩
  | store =>
      rw [kind] at obeys
      obtain ⟨_, _, _, _, _, _, -, -, -, none⟩ := obeys
      exact silent_settles found (runOp_store found kind) (((site found).store_explains kind).spares ready) none
  | affineFor => exact loop_settles found ready regions kind (by rwa [kind] at obeys)
  | affineIf => exact conditional_settles found ready regions kind (by rwa [kind] at obeys)
  | yield =>
      rw [kind] at obeys
      have runs : runOp module (runBlock module depth) id frame =
          (pure () >>= fun _ => pure (.next frame)) := runOp_idle found (.inl kind)
      exact silent_settles found runs (.pure ()) obeys
  | func =>
      rw [kind] at obeys
      have runs : runOp module (runBlock module depth) id frame =
          (pure () >>= fun _ => pure (.next frame)) := runOp_idle found (.inr kind)
      exact silent_settles found runs (.pure ()) obeys.2.2.2
  | ret =>
      rw [Settles, runOp_ret found kind]
      exact .bind (.mapM fun operand member => ((site found).lookup_explains member).spares ready)
        fun _ _ _ _ => .pure fun later same => by cases same
  | call => exact call_settles found ready functions kind (by rwa [kind] at obeys)

end Found

/-! ## Blocks -/

/-- The operations of a block before some point, and what they see, are where a value comes from. -/
def Available (module : Module) (block : BlockId) (found : Block) (done : List OpId)
    (value : Value) : Prop :=
  (∃ position, value = .arg block position) ∨
    (∃ earlier position, value = .result earlier position ∧ earlier ∈ done) ∨
    ∃ owner, found.parent = some owner ∧ module.Visible owner value

/-- What is visible to an operation is available at its place in its block. -/
theorem available_of_visible {module : Module} (chronological : module.Chronological)
    {id : OpId} {op : Operation} {block : Block} {done rest : List OpId}
    (found : module.op? id = some op) (listed : module.block? op.parent = some block)
    (split : block.ops = done ++ id :: rest) (visible : module.Visible id value) :
    Available module op.parent block done value := by
  cases visible with
  | arg position known =>
      obtain rfl := Option.some.inj (found.symm.trans known)
      exact .inl ⟨position, rfl⟩
  | @result _ earlier _ _ position known listed' precedes =>
      obtain rfl := Option.some.inj (found.symm.trans known)
      obtain rfl := Option.some.inj (listed.symm.trans listed')
      refine .inr (.inl ⟨earlier, position, rfl, ?_⟩)
      obtain ⟨front, back, other, member⟩ := precedes
      -- Operations are listed in order, so the one that precedes is not among the rest.
      have sorted := chronological.sorted listed
      have before : earlier.index < id.index := by
        rw [other, List.pairwise_append] at sorted
        exact sorted.2.2 earlier member id List.mem_cons_self
      have inside : earlier ∈ done ++ id :: rest := by
        rw [← split, other]
        exact List.mem_append_left _ member
      rw [split, List.pairwise_append, List.pairwise_cons] at sorted
      rcases List.mem_append.mp inside with first | last
      · exact first
      · rcases List.mem_cons.mp last with rfl | last
        · omega
        · have after := sorted.2.1.1 earlier last
          omega
  | outer known listed' owned visible =>
      obtain rfl := Option.some.inj (found.symm.trans known)
      obtain rfl := Option.some.inj (listed.symm.trans listed')
      exact .inr (.inr ⟨_, owned, visible⟩)

/-- The failure of a call. -/
def Reply.failure? (reply : Reply) : Option RunError :=
  match reply.results with
  | .ok _ => none
  | .error error => some error

theorem Reply.results_eq_error {reply : Reply} {error : RunError}
    (failed : reply.failure? = some error) : reply.results = .error error := by
  unfold failure? at failed
  split at failed
  · cases failed
  · rename_i results
    cases failed
    exact results

/-- Results only fail for being buffers. -/
theorem scalarResults_ne {error : RunError} (other : ∀ func, error ≠ .operandKind func .ret .scalar)
    (func : OpId) (data : List Datum) : scalarResults func data ≠ .error error := by
  induction data with
  | nil => nofun
  | cons datum rest ih =>
      cases datum with
      | buffer handle => exact fun same => other func (Except.error.inj same).symm
      | scalar scalar =>
          rw [scalarResults]
          cases others : scalarResults func rest with
          | ok scalars => nofun
          | error error =>
              intro same
              cases same
              exact ih others

section Modules

variable {module : Module} {dtype : DType} (chronological : module.Chronological)
  (dominated : module.Dominated)
  (obeys : ∀ {id : OpId} {op : Operation}, module.op? id = some op → op.ObeysExactly module)
  (scalar : module.valueType? value = some (.scalar dtype))
  (own : ∀ {func : OpId} {op : Operation}, module.op? func = some op → op.kind = .func →
    ¬ module.Borrows func value)
  (answered : ∀ id position, value = .result id position → ¬ Unanswered module id)

/-- In the middle of a block inside of a function, the value is defined where it is available. -/
def Stocked (value : Value) (module : Module) (func : OpId) (block : BlockId) (found : Block)
    (done : List OpId) (frame : Frame) : Prop :=
  frame ≠ [] ∧ (Available module block found done value → module.Inside func value →
    (frame.find? value).isSome = true)

/-- Blocks inside of a function spare the value, in a frame that has it where it is visible to the
operation around. -/
def BlocksSpare (value : Value) (module : Module) (depth : Nat) : Prop :=
  ∀ func op block found args frame, module.op? func = some op → op.kind = .func →
    module.Encloses func block → module.block? block = some found →
    args.length = found.args.length →
    (∀ owner, found.parent = some owner → module.Visible owner value →
      module.Inside func value → (frame.find? value).isSome = true) →
    Spares value (runBlock module depth block args frame)

include scalar in
/-- A block is entered. -/
theorem stocked_enter {func : OpId} {block : BlockId} {found : Block} {args : List Datum}
    {frame : Frame} (listed : module.block? block = some found)
    (same : args.length = found.args.length)
    (outer : ∀ owner, found.parent = some owner → module.Visible owner value →
      module.Inside func value → (frame.find? value).isSome = true) :
    Stocked value module func block found [] (frame.enter block args) := by
  refine ⟨by simp [Frame.enter], fun available inside => ?_⟩
  by_cases own : ∃ position, value = .arg block position
  · obtain ⟨position, rfl⟩ := own
    have typed : found.args[position]? = some (.scalar dtype) := by
      simpa [Module.valueType?, listed] using scalar
    have small : position < args.length := by
      rw [same]
      exact (List.getElem?_eq_some_iff.mp typed).1
    rw [Frame.find?_enter_arg (List.getElem?_eq_getElem small)]
    rfl
  · rw [Frame.find?_enter_of_ne fun position same => own ⟨position, same⟩]
    rcases available with argument | ⟨_, _, -, member⟩ | ⟨owner, owned, visible⟩
    · exact absurd argument own
    · cases member
    · exact outer owner owned visible inside

include obeys scalar in
/-- The only result of an operation that the value can be. -/
theorem position_eq_zero {id : OpId} {position : Nat} (same : value = .result id position) :
    position = 0 := by
  subst same
  simp only [Module.valueType?, Option.bind_eq_bind, Option.bind_eq_some_iff] at scalar
  obtain ⟨op, there, typed⟩ := scalar
  have small := (List.getElem?_eq_some_iff.mp typed).1
  have one := (obeys there).results_length_le
  omega

include obeys scalar answered in
/-- An operation has ended, and the block goes on. -/
theorem Stocked.step {func : OpId} {block : BlockId} {found : Block} {done : List OpId}
    {frame later : Frame} (stocked : Stocked value module func block found done frame) {id : OpId}
    {op : Operation} (there : module.op? id = some op) (defined : Defined module id op frame later) :
    Stocked value module func block found (done ++ [id]) later := by
  have before : (∀ position, value ≠ .result id position) →
      Available module block found (done ++ [id]) value →
      Available module block found done value := by
    rintro other (argument | ⟨earlier, position, rfl, member⟩ | outer)
    · exact .inl argument
    · rcases List.mem_append.mp member with old | new
      · exact .inr (.inl ⟨earlier, position, rfl, old⟩)
      · exact absurd (congrArg (Value.result · position) (List.mem_singleton.mp new))
          (other position)
    · exact .inr (.inr outer)
  rcases defined with ⟨rfl, silent⟩ | ⟨datum, rfl⟩
  · refine ⟨stocked.1, fun available => stocked.2 (before ?_ available)⟩
    rintro position rfl
    rcases silent with none | unanswered
    · simp [Module.valueType?, there, none] at scalar
    · exact answered id position rfl unanswered
  · refine ⟨Frame.define_ne_nil stocked.1, fun available inside => ?_⟩
    by_cases same : .result id 0 = value
    · subst same
      rw [Frame.find?_define_self stocked.1]
      rfl
    · rw [Frame.find?_define_of_ne same]
      refine stocked.2 (before (fun position other => same ?_) available) inside
      rw [other, position_eq_zero obeys scalar other]

section Frames

include chronological dominated scalar own in
/-- What an operation reads is defined. -/
theorem Stocked.ready {func : OpId} {function op : Operation} {found : Block} {id : OpId}
    {done rest : List OpId} {frame : Frame} (there : module.op? func = some function)
    (kind : function.kind = .func) (known : module.op? id = some op)
    (encloses : module.Encloses func op.parent) (listed : module.block? op.parent = some found)
    (split : found.ops = done ++ id :: rest)
    (stocked : Stocked value module func op.parent found done frame) :
    Ready value frame op.operands := by
  intro member
  have visible := dominated.visible known member scalar
  refine stocked.2 (available_of_visible chronological known listed split visible) ?_
  exact Classical.byContradiction fun outside =>
    own there kind ⟨outside, id, op, ⟨op, known, encloses⟩, known, member⟩

include chronological in
/-- The regions of an operation are entered from a frame that has what the operation sees. -/
theorem BlocksSpare.regions {depth : Nat} (spare : BlocksSpare value module depth) {func : OpId}
    {function op : Operation} {found : Block} {id : OpId} {done rest : List OpId} {frame : Frame}
    (there : module.op? func = some function) (kind : function.kind = .func)
    (known : module.op? id = some op) (encloses : module.Encloses func op.parent)
    (listed : module.block? op.parent = some found) (split : found.ops = done ++ id :: rest)
    (stocked : Stocked value module func op.parent found done frame) :
    RegionsSpare value module depth op frame := by
  intro region member block args entered same
  refine spare func function region block args frame there kind (.inner encloses known member)
    entered same fun owner owned visible => stocked.2 ?_
  obtain ⟨block', entered', parent⟩ := (chronological.region known region member).2
  obtain rfl := Option.some.inj (entered.symm.trans entered')
  obtain rfl : owner = id := Option.some.inj (owned.symm.trans parent)
  exact available_of_visible chronological known listed split visible

include chronological in
/-- A function is entered from an empty frame, and nothing in it is visible from outside. -/
theorem BlocksSpare.functions {depth : Nat} (spare : BlocksSpare value module depth) :
    FunctionsSpare value module depth := by
  intro callee func args target
  obtain ⟨op, there, kind⟩ := Module.exists_of_function? target
  unfold runFunction
  cases entry : module.region? func 0 with
  | none => exact .throw (by simp)
  | some body =>
      have member : body ∈ op.regions := by
        simp only [Module.region?, there, Option.bind_eq_bind, Option.bind_some] at entry
        exact List.mem_of_getElem? entry
      obtain ⟨block, listed, parent⟩ := (chronological.region there body member).2
      simp only [listed, require, pure_bind]
      split
      · exact .throw_bind (by simp)
      · rename_i same
        have entered := spare func op body block args [] there kind (.region there member) listed
          (Decidable.not_not.mp same) fun owner owned visible inside => by
            obtain rfl : owner = func := Option.some.inj (owned.symm.trans parent)
            exact absurd visible (inside.not_visible chronological there)
        exact (FailsOnly.modify _).andThen fun _ => entered.andThen fun _ => .pure _

include chronological dominated obeys scalar own answered in
/-- **Lists of operations.** -/
theorem runOps_spares {depth : Nat} (spare : BlocksSpare value module depth) {func : OpId}
    {function : Operation} {block : BlockId} {found : Block} {done rest : List OpId} {frame : Frame}
    (there : module.op? func = some function) (kind : function.kind = .func)
    (encloses : module.Encloses func block) (listed : module.block? block = some found)
    (split : found.ops = done ++ rest)
    (stocked : Stocked value module func block found done frame) :
    Spares value (runOps (runOp module (runBlock module depth)) rest frame) := by
  induction rest generalizing done frame with
  | nil => exact .pure none
  | cons id rest ih =>
      have member : id ∈ found.ops := by simp [split]
      obtain ⟨op, known, rfl⟩ := chronological.listed listed id member
      have settles : Settles value known depth frame :=
        runOp_settles known
          (stocked.ready chronological dominated scalar own there kind known encloses listed split)
          (obeys known) (spare.regions chronological there kind known encloses listed split stocked)
          (spare.functions chronological)
      rw [runOps]
      refine settles.1.bind fun step before after ran => ?_
      cases step with
      | returned values => exact .pure _
      | next later =>
          have defined := settles.2 before _ after ran later rfl
          have split' : found.ops = (done ++ [id]) ++ rest := by simpa using split
          exact ih split' (stocked.step obeys scalar answered known defined)

include chronological dominated obeys scalar own answered in
/-- **Blocks.** By induction on the depth to which they nest. -/
theorem blocks_spare (depth : Nat) : BlocksSpare value module depth := by
  induction depth with
  | zero =>
      intro func op block found args frame there kind encloses listed same outer
      exact .throw (by simp)
  | succ depth ih =>
      intro func op block found args frame there kind encloses listed same outer
      simp only [runBlock, listed, require, pure_bind]
      exact runOps_spares chronological dominated obeys scalar own answered ih there kind encloses
        listed rfl (stocked_enter scalar listed same outer)

end Frames

include chronological dominated obeys scalar in
/-- **Calls.** A call fails for want of a scalar only if some function uses the scalar from outside
of its body, or if the scalar is the result of a call to a function that can return none. -/
theorem call_undefined {depth : Nat} {name : String} {args : List Buffer} {machine : Machine}
    (failed : (call module depth name args machine).1.failure? = some (.undefinedValue value)) :
    (∃ func op, module.op? func = some op ∧ op.kind = .func ∧ module.Borrows func value) ∨
      ∃ id position, value = .result id position ∧ Unanswered module id := by
  refine Classical.byContradiction fun neither => ?_
  have own : ∀ {func : OpId} {op : Operation}, module.op? func = some op → op.kind = .func →
      ¬ module.Borrows func value :=
    fun there kind borrows => neither (.inl ⟨_, _, there, kind, borrows⟩)
  have answered : ∀ id position, value = .result id position → ¬ Unanswered module id :=
    fun id position same unanswered => neither (.inr ⟨id, position, same, unanswered⟩)
  have spare := blocks_spare chronological dominated obeys scalar own answered depth
  replace failed := Reply.results_eq_error failed
  unfold call at failed
  cases target : module.function? name with
  | none =>
      rw [target] at failed
      cases failed
  | some func =>
      rw [target] at failed
      dsimp only at failed
      split at failed
      · exact scalarResults_ne (by simp) _ _ failed
      · rename_i error last ran
        cases failed
        exact (spare.functions chronological name func _ target).ne _ _ ran

end Modules

end Machine

end AffineKernel
