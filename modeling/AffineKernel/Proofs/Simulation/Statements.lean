import AffineKernel.Proofs.Script.Deferral
import AffineKernel.Proofs.Semantics.Deeds
import AffineKernel.Proofs.Simulation.Regions

/-!
# Operations that do what deeds say

Operations with an effect are executed in a frame that has the values of the
loop variables and the buffers of the tensors (`Anchors`), on a heap that holds
the contents of the tensors (`Mirrors`). The frame knows about loops, and the
heap about memory: what a deed writes changes the heap, and leaves the frame
alone.

`Enacts` says of what was built between two contexts that it has an effect on
the memory. A statement evaluates expressions of its own, in the memory that it
finds (`Serves`), and ends with one operation: a store (`Enacts.write`), a loop
around operations that enact a body (`Enacts.loop`) or a conditional
(`Enacts.branch`).
-/

set_option autoImplicit false

namespace AffineKernel

variable {tensors : List Tensor} {vars : List Expr} {nodes : Expr → Prop} {env : Env}
  {memory : Memory} {place : NodeId → Option Nat} {context other before middle after : Context}
  {frame next : Frame} {heap : Array Buffer}

/-! ## Frames and heaps -/

/-- A frame has the numbers of loop variables and the buffers of the tensors with storage. -/
structure Anchors (vars : List Expr) (env : Env) (place : NodeId → Option Nat)
    (context : Context) (frame : Frame) : Prop where
  entered : frame ≠ []
  counter : ∀ var ∈ vars, ∃ value number, context.binding? var.id = some (.value value) ∧
    env var.id = some number ∧ (Scalar.int number).Fits .index ∧
    frame.find? value = some (.scalar (.int number)) ∧
    context.module.valueType? value = some (.scalar .index)
  stored : ∀ {id : NodeId} {value : Value}, context.storage.find? id = some value →
    ∃ handle, place id = some handle ∧ frame.find? value = some (.buffer handle) ∧
      ∃ type, context.module.valueType? value = some type

/-- A heap has the contents of tensors, each in a buffer of its own. -/
structure Mirrors (tensors : List Tensor) (place : NodeId → Option Nat) (memory : Memory)
    (heap : Array Buffer) : Prop where
  held : ∀ {id : NodeId} {handle : Nat}, place id = some handle →
    ∃ buffer, heap[handle]? = some buffer ∧ memory id = some buffer
  apart : ∀ {id other : NodeId} {handle : Nat}, place id = some handle →
    place other = some handle → id = other
  known : ∀ {id : NodeId} {buffer : Buffer}, memory id = some buffer →
    ∃ tensor ∈ tensors, tensor.id = id ∧ ∀ scalar ∈ buffer.data, scalar.Fits tensor.dtype

namespace Anchors

/-- What anchors a context anchors every context that binds the loop variables to the same values
and stores the same, in a larger module and in a frame with the same values. -/
theorem transfer (anchors : Anchors vars env place context frame)
    (kept : ∀ var ∈ vars, ∀ binding, context.binding? var.id = some binding →
      other.binding? var.id = some binding)
    (storage : other.storage = context.storage)
    (extends_ : context.module.Extends other.module) (entered : next ≠ [])
    (agrees : Frame.Agrees context.module frame next) : Anchors vars env place other next where
  entered := entered
  counter var listed := by
    obtain ⟨value, number, bound, known, fits, found, typed⟩ := anchors.counter var listed
    refine ⟨value, number, kept var listed _ bound, known, fits, ?_, extends_.valueType? typed⟩
    rw [agrees value _ typed]
    exact found
  stored := by
    intro id value found
    rw [storage] at found
    obtain ⟨handle, placed, held, type, typed⟩ := anchors.stored found
    refine ⟨handle, placed, ?_, type, extends_.valueType? typed⟩
    rw [agrees value type typed]
    exact held

/-- One more loop variable is bound to a value that holds its number. -/
theorem count (anchors : Anchors vars env place context frame) {var : Expr} {number : Int}
    {value : Value} (new : ∀ known ∈ vars, known.id ≠ var.id)
    (found : frame.find? value = some (.scalar (.int number)))
    (typed : context.module.valueType? value = some (.scalar .index))
    (fits : (Scalar.int number).Fits .index) :
    Anchors (var :: vars) (env.set var.id number) place (context.bind var.id (.value value))
      frame where
  entered := anchors.entered
  counter known listed := by
    rcases List.mem_cons.mp listed with rfl | old
    · exact ⟨value, number, by simp [Context.binding?_bind], by simp [Env.set], fits, found, typed⟩
    · obtain ⟨held, count, bound, counted, rest⟩ := anchors.counter known old
      have different := new known old
      refine ⟨held, count, ?_, ?_, rest⟩
      · rw [Context.binding?_bind, if_neg different.symm]
        exact bound
      · rw [Env.set, if_neg different]
        exact counted
  stored := anchors.stored

end Anchors

/-- A write replaces one buffer. -/
theorem Mirrors.write (mirrors : Mirrors tensors place memory heap) {tensor : Tensor}
    {handle offset : Nat} {buffer : Buffer} {scalar : Scalar}
    (same : ∀ arg ∈ tensors, arg.id = tensor.id → arg = tensor)
    (placed : place tensor.id = some handle) (held : memory tensor.id = some buffer)
    (fits : scalar.Fits tensor.dtype) :
    Mirrors tensors place (memory.set tensor.id (buffer.put offset scalar))
      (heap.modify handle fun _ => buffer.put offset scalar) where
  held := by
    intro id position found
    obtain ⟨old, there, known⟩ := mirrors.held found
    by_cases own : id = tensor.id
    · subst own
      obtain rfl : handle = position := Option.some.inj (placed.symm.trans found)
      exact ⟨buffer.put offset scalar, by simp [Array.getElem?_modify, there], if_pos rfl⟩
    · have different : handle ≠ position := by
        rintro rfl
        exact own (mirrors.apart found placed)
      exact ⟨old, by simp [Array.getElem?_modify, different, there], by simp [Memory.set, own, known]⟩
  apart := mirrors.apart
  known := by
    intro id found changed
    by_cases own : id = tensor.id
    · subst own
      rw [Memory.set, if_pos rfl] at changed
      cases changed
      obtain ⟨arg, listed, equal, filled⟩ := mirrors.known held
      obtain rfl := same arg listed equal
      refine ⟨arg, listed, rfl, fun other inside => ?_⟩
      rcases Array.mem_or_eq_of_mem_setIfInBounds inside with old | rfl
      · exact filled other old
      · exact fits
    · rw [Memory.set, if_neg own] at changed
      exact mirrors.known changed

/-- A write into a buffer fails only by its indices. -/
theorem Meaning.write_proper {map : AffineMap} {words : List Int64} {buffer : Buffer}
    {scalar : Scalar} :
    (Meaning.evalMap map words >>= fun tuple => Meaning.write buffer tuple scalar) ≠
      .error .meaningless := by
  intro same
  cases evaluated : Meaning.evalMap map words with
  | error fault =>
      rw [evaluated] at same
      have sort : fault = .meaningless := Except.error.inj same
      exact Meaning.evalMap_ne_meaningless map words (sort ▸ evaluated)
  | ok tuple =>
      rw [evaluated] at same
      change Meaning.write buffer tuple scalar = _ at same
      unfold Meaning.write at same
      split at same <;> cases same

/-- What is written is the buffer with one other element. -/
theorem Meaning.exists_put_of_write {map : AffineMap} {words : List Int64} {buffer written : Buffer}
    {scalar : Scalar}
    (known : (Meaning.evalMap map words >>= fun tuple => Meaning.write buffer tuple scalar) =
      .ok written) : ∃ offset, written = buffer.put offset scalar := by
  obtain ⟨tuple, -, known⟩ := Except.bind_eq_ok known
  unfold Meaning.write at known
  split at known
  · rename_i offset _
    exact ⟨offset, (Except.ok.inj known).symm⟩
  · cases known

/-- The nodes of a statement before it is built: those that are bound are loop variables. -/
structure Serves (tensors : List Tensor) (vars : List Expr) (nodes : Expr → Prop)
    (context : Context) : Prop where
  graph : Graph nodes
  bound : ∀ {expr : Expr} {binding : Binding}, nodes expr →
    context.binding? expr.id = some binding → expr ∈ vars
  named : ∀ var ∈ vars, var.loopName?.isSome = true
  args : ∀ {expr : Expr} {tensor : Tensor}, nodes expr → expr.tensor? = some tensor →
    ∀ arg ∈ tensors, arg.id = tensor.id → arg = tensor

namespace Serves

variable (serves : Serves tensors vars nodes context)
include serves

/-- The nodes of a statement are represented in the memory as it is. -/
theorem represents (anchors : Anchors vars env place context frame)
    (mirrors : Mirrors tensors place memory heap) :
    Represents nodes ⟨env, memory, place⟩ context frame heap where
  entered := anchors.entered
  bound := by
    intro expr value member bound
    have listed := serves.bound member bound
    obtain ⟨held, number, same, known, fits, found, typed⟩ := anchors.counter expr listed
    obtain rfl : held = value := Binding.value.inj (Option.some.inj (same.symm.trans bound))
    have meaning : Setting.value ⟨env, memory, place⟩ expr = .ok (.int number) ∧
        expr.dtype? = some .index := by
      have name := serves.named expr listed
      cases expr <;> simp only [Expr.loopName?, Option.isSome_none, Bool.false_eq_true] at name
      all_goals
        refine ⟨?_, rfl⟩
        simp only [Expr.id] at known
        simp [Setting.value, Expr.value, known]
    exact ⟨.int number, .index, meaning.2, fits, meaning.1, found, typed⟩
  stored := by
    intro id value found
    obtain ⟨handle, placed, buffer, typed⟩ := anchors.stored found
    obtain ⟨contents, held, known⟩ := mirrors.held placed
    exact ⟨handle, contents, buffer, placed, held, known, typed⟩
  fits := by
    intro expr tensor buffer member used held
    obtain ⟨arg, listed, same, filled⟩ := mirrors.known held
    obtain rfl := serves.args member used arg listed same
    exact filled

/-- A node that is no loop variable has not been built yet. -/
theorem free {expr : Expr} (member : nodes expr) (plain : expr.loopName? = none) :
    context.binding? expr.id = none := by
  cases found : context.binding? expr.id with
  | none => rfl
  | some binding =>
      have named := serves.named expr (serves.bound member found)
      rw [plain] at named
      cases named

end Serves

/-! ## Computations of a statement -/

namespace Computes

variable {β γ : Type} {meaning : Setting → Except Fault β} {good : β → Frame → Prop}

/-- Constructors before a computation change nothing. -/
theorem of_rests (rests : before.Rests middle) (computes : Computes nodes middle after meaning good) :
    Computes nodes before after meaning good where
  emits := rests.emits.trans computes.emits
  storage := computes.storage.trans rests.storage
  kept found := computes.kept (by rwa [Context.binding?, rests.bindings])
  fresh found := by
    rcases computes.fresh found with old | new
    · exact .inl (by rwa [Context.binding?, rests.bindings] at old)
    · exact .inr new
  runs := by
    obtain ⟨ops, lists, performs⟩ := computes.runs
    refine ⟨ops, fun block rest found current listed => ?_, ?_⟩
    · exact lists block rest found (rests.stack.trans current) (rests.module ▸ listed)
    · intro module run setting frame machine extends_ represents
      have same : before.module.Extends middle.module := by
        rw [rests.module]
        exact .refl _ _
      have starts := represents.transfer
        (fun {id value} (found : middle.binding? id = some (.value value)) => by rwa [Context.binding?, rests.bindings] at found) rests.storage same
        represents.entered (.refl _ _)
      rw [← rests.module]
      exact performs module run setting frame machine extends_ starts

/-- What is made of the result of a computation. -/
theorem map {f : β → Except Fault γ} {better : γ → Frame → Prop}
    (computes : Computes nodes before after meaning good)
    (known : ∀ b frame, good b frame → ∃ c, f b = .ok c ∧ better c frame) :
    Computes nodes before after (fun setting => meaning setting >>= f) better where
  emits := computes.emits
  storage := computes.storage
  kept := computes.kept
  fresh := computes.fresh
  runs := by
    obtain ⟨ops, lists, performs⟩ := computes.runs
    refine ⟨ops, lists, fun module run setting frame machine extends_ represents => ?_⟩
    refine (performs module run setting frame machine extends_ represents).andThen ?_
    rintro b step last - ⟨next, rfl, heap, agrees, reached, holds⟩
    obtain ⟨c, made, better⟩ := known b next holds
    exact ⟨c, made, next, rfl, heap, agrees, reached, better⟩

/-- A node that was computed is in the value that it is bound to. -/
theorem holds {expr : Expr} {value : Value} {dtype : DType} {good : Scalar → Frame → Prop}
    (computes : Computes nodes before after (fun setting => setting.value expr) good)
    (member : nodes expr) (bound : after.binding? expr.id = some (.value value))
    (type : expr.dtype? = some dtype) :
    Computes nodes before after (fun setting => setting.value expr) fun scalar frame =>
      Holds dtype value scalar frame ∧ after.module.valueType? value = some (.scalar dtype) where
  emits := computes.emits
  storage := computes.storage
  kept := computes.kept
  fresh := computes.fresh
  runs := by
    obtain ⟨ops, lists, performs⟩ := computes.runs
    refine ⟨ops, lists, fun module run setting frame machine extends_ represents => ?_⟩
    refine (performs module run setting frame machine extends_ represents).mono ?_
    rintro scalar step last known ⟨next, rfl, heap, agrees, reached, -⟩
    have bears := reached.operand member bound known type
    exact ⟨next, rfl, heap, agrees, reached, ⟨bears.fits, bears.found⟩, bears.typed⟩

end Computes

/-- An integer of the type `index` is its own conversion. -/
theorem Scalar.convert_index {scalar : Scalar} (fits : scalar.Fits .index) :
    scalar.convert .index .index = scalar := by
  cases scalar with
  | float x => cases fits
  | int value =>
      have kept : normalize (rescale value 0 0) .index = value := by simpa [rescale] using fits.2
      exact congrArg Scalar.int kept

/-- A truth value is zero or one, and as an `index` it is the same integer. -/
theorem Scalar.convert_bool {scalar : Scalar} (fits : scalar.Fits .bool) :
    scalar.convert .bool .index = scalar := by
  cases scalar with
  | float x => cases fits
  | int value =>
      have normal : normalize value .bool = value % 2 := rfl
      have same := fits.2
      rw [normal] at same
      have cases : value = 0 ∨ value = 1 := by omega
      rcases cases with rfl | rfl <;> rfl

namespace BuildM

/-- The number of a bound in a frame; the module knows the operand. -/
def LoopBound.Delimits (limit : LoopBound) (module : Module) (number : Int) (frame : Frame) : Prop :=
  limit.Denotes frame number ∧ ∀ value ∈ limit.operand, ∃ type, module.valueType? value = some type

theorem LoopBound.Delimits.agrees {limit : LoopBound} {module : Module} {number : Int}
    (delimits : limit.Delimits module number frame) (agrees : Frame.Agrees module frame next) :
    limit.Delimits module number next := by
  refine ⟨?_, delimits.2⟩
  obtain ⟨denotes, typed⟩ := delimits
  cases denotes with
  | constant value => exact .constant value
  | operand found fits =>
      rename_i value
      obtain ⟨type, known⟩ := typed value rfl
      exact .operand ((agrees value type known).trans found) fits

/-- A value of the type `index` is the operand of a bound. -/
theorem LoopBound.delimits_of_holds {module : Module} {value : Value} {scalar : Scalar}
    {type : ValueType} (holds : Holds .index value scalar frame)
    (typed : module.valueType? value = some type) :
    ∃ number, Meaning.number scalar = .ok number ∧
      LoopBound.Delimits ⟨.identity 1, some value⟩ module number frame := by
  obtain ⟨fits, found⟩ := holds
  cases scalar with
  | float x => cases fits
  | int number =>
      refine ⟨number, rfl, .operand found fits, fun known same => ?_⟩
      cases same
      exact ⟨type, typed⟩

/-- A value is converted to an `index`, unless it is one. -/
theorem emitIndex_computes {before : Context} {expr : Expr} {value : Value} {dtype : DType}
    (held : Computes nodes before context (fun setting => setting.value expr) fun scalar frame =>
      Holds dtype value scalar frame ∧ context.module.valueType? value = some (.scalar dtype))
    (ends : before.AtEnds) :
    Ensures (emitCast value dtype .index) context
      (fun index after =>
        Computes nodes before after
          (fun setting => setting.value expr >>= fun scalar => .ok (scalar.convert dtype .index))
          fun scalar frame => Holds .index index scalar frame ∧
            after.module.valueType? index = some (.scalar .index))
      (fun _ => True) := by
  rw [emitCast]
  split
  · rename_i same
    subst same
    rw [ensures_pure]
    refine held.map fun scalar frame known => ⟨scalar, ?_, known⟩
    rw [Scalar.convert_index known.1.1]
  · refine (createValue_computes (fun _ scalar => .ok (scalar.convert dtype .index)) held ends
      ?_).mono ?_ fun _ _ => trivial
    · intro module run id op setting frame machine scalar carries extends_ _ _ known
      have kinds : op.kind = .indexCast ∨ op.kind = .conversionCast := by
        rw [carries.kind]
        exact castKind_cases dtype .index
      refine ⟨?_, Scalar.convert_fits scalar dtype .index⟩
      exact Machine.cast_defines carries.found kinds carries.results carries.operands
        (extends_.valueType? known.2) known.1.2
    · rintro index after ⟨cast, typed⟩
      exact cast.mono fun scalar frame known => ⟨known, typed⟩

/-- The bound of a loop is computed, as an `index`. -/
theorem buildBound_computes (graph : Graph nodes) {bound : Bound}
    (members : ∀ expr ∈ bound.exprs, nodes expr) (flat : bound.exprs.all Expr.isFlat = true)
    (ends : context.AtEnds) :
    Ensures (buildBound bound) context
      (fun limit after =>
        Computes nodes context after
          (fun setting => Meaning.bound setting.env setting.memory bound)
          (limit.Delimits after.module))
      (fun _ => True) := by
  cases bound with
  | const value =>
      rw [buildBound, ensures_pure]
      exact Computes.of_known fun _ => ⟨value.toInt, rfl, .constant value, by simp⟩
  | expr value =>
      have member : nodes value := members value (by simp [Bound.exprs])
      have flatValue : value.isFlat = true := by simpa [Bound.exprs] using flat
      rw [buildBound, ensures_bind]
      refine ensures_valueType (fun dtype type => ?_) trivial
      dsimp only
      split
      · trivial
      refine operand_built (build_built graph value flatValue member ends)
        fun built middle bound computes => ?_
      have held := computes.holds member bound type
      have meaning : ∀ setting : Setting,
          Meaning.bound setting.env setting.memory (.expr value) =
            (setting.value value >>= fun scalar => .ok (scalar.convert dtype .index)) >>=
              Meaning.number := by
        intro setting
        simp only [Meaning.bound, type, Setting.value]
        cases value.value setting.env setting.memory <;> rfl
      simp only [meaning, ensures_bind, ensures_pure]
      refine (emitIndex_computes held ends).mono ?_ fun _ _ => trivial
      rintro index after converted
      exact converted.map fun scalar frame known => LoopBound.delimits_of_holds known.1 known.2

/-- A loop is begun: its bounds are computed, and the loop is created with a new variable. -/
theorem beginLoop_computes (graph : Graph nodes) {lower upper : Bound} (spec : LoopSpec)
    (members : ∀ expr ∈ lower.exprs ++ upper.exprs, nodes expr)
    (flat : (lower.exprs ++ upper.exprs).all Expr.isFlat = true) (ends : context.AtEnds)
    (rooted : context.Rooted) :
    Ensures (beginLoop lower upper spec) context
      (fun made after => made.1 = .loopVar context.nextId (spec.name.getD "") ∧
        ∃ low high middle,
          Computes nodes context middle
            (fun setting => do
              return (← Meaning.bound setting.env setting.memory lower,
                ← Meaning.bound setting.env setting.memory upper))
            (fun range frame => low.Denotes frame range.1 ∧ high.Denotes frame range.2) ∧
          Unfolds (loopDraft low high spec) [.scalar .index] made.2.op made.2.body middle after)
      (fun _ => True) := by
  have counted : context.Rests { context with nextId := context.nextId + 1 } :=
    { Context.Rests.refl context with nextId_le := Nat.le_succ _ }
  rw [List.all_append, Bool.and_eq_true] at flat
  rw [beginLoop, ensures_bind, ensures_freshId, ensures_bind]
  refine (buildBound_computes graph (fun expr listed => members expr (by simp [listed])) flat.1
    (show ({ context with nextId := context.nextId + 1 } : Context).AtEnds from ends)).mono
    (fun low first lows => ?_) fun _ _ => trivial
  have firstEnds := lows.emits.atEnds ends
  rw [ensures_bind]
  refine (buildBound_computes graph (fun expr listed => members expr (by simp [listed])) flat.2
    firstEnds).mono (fun high middle highs => ?_) fun _ _ => trivial
  have both := lows.seq_keep highs ends fun agrees delimits => delimits.agrees agrees
  have middleRooted := both.emits.rooted rooted
  rw [ensures_bind]
  refine (emitLoop_opened low high spec middleRooted.receives).mono (fun header after opens => ?_)
    fun _ _ => trivial
  rw [ensures_pure]
  refine ⟨rfl, low, high, middle, ?_, opens⟩
  exact (Computes.of_rests counted both).mono fun range frame known => ⟨known.1.1, known.2.1⟩

/-- A conditional is begun: its condition is computed, and the conditional is created. -/
theorem beginConditional_computes (graph : Graph nodes) {condition : Expr}
    (member : nodes condition) (flat : condition.isFlat = true)
    (type : condition.dtype? = some .bool) (ends : context.AtEnds) (rooted : context.Rooted) :
    Ensures (beginConditional condition) context
      (fun made after => ∃ index middle,
        Computes nodes context middle (fun setting => setting.value condition)
          (fun scalar frame => ∃ number, scalar = .int number ∧
            frame.find? index = some (.scalar (.int number)) ∧
            (Scalar.int number).Fits .index) ∧
        Unfolds
          { kind := .affineIf, operands := [index], regions := [[]],
            attributes := [("condition", .integerSet .isOne)] }
          [] made.1 made.2 middle after)
      (fun _ => True) := by
  rw [beginConditional, ensures_bind]
  refine ensures_valueType (fun dtype known => ?_) trivial
  obtain rfl : dtype = .bool := Option.some.inj (known.symm.trans type)
  rw [if_neg (by decide)]
  simp only [buildValue, bind_assoc]
  refine operand_built (build_built graph condition flat member ends)
    fun value first bound computes => ?_
  have held := computes.holds member bound type
  rw [ensures_bind, emitCast, if_neg (by decide)]
  refine (createValue_computes (fun _ scalar => .ok scalar) held ends ?_).mono ?_
    fun _ _ => trivial
  · intro module run id op setting frame machine scalar carries extends_ _ _ known
    have kinds : op.kind = .indexCast ∨ op.kind = .conversionCast := by
      rw [carries.kind]
      exact castKind_cases .bool .index
    have same := Scalar.convert_bool known.1.1
    have defines : Machine.Defines module run id frame machine
        (.ok (scalar.convert .bool .index)) :=
      Machine.cast_defines carries.found kinds carries.results carries.operands
        (extends_.valueType? known.2) known.1.2
    rw [same] at defines
    exact ⟨defines, same ▸ Scalar.convert_fits scalar .bool .index⟩
  · rintro index middle ⟨converted, -⟩
    have simpler : ∀ setting : Setting, (setting.value condition >>= fun scalar => .ok scalar) =
        setting.value condition := fun setting => bind_pure _
    simp only [simpler] at converted
    refine (createRegion_opened _ _ _ _ (converted.emits.rooted rooted).receives).mono ?_
      fun _ _ => trivial
    rintro made after opens
    refine ⟨index, middle, converted.mono fun scalar frame known => ?_, opens⟩
    obtain ⟨fits, found⟩ := known
    cases scalar with
    | float x => cases fits
    | int number => exact ⟨number, rfl, found, fits⟩

end BuildM

/-! ## Effects -/

/-- What is built between two contexts has an effect on the contents of the tensors, wherever it is
executed. -/
structure Enacts (tensors : List Tensor) (vars : List Expr) (depth : Nat) (before after : Context)
    (effect : Env → Memory → Except Fault Memory) : Prop where
  emits : Context.Emits [] before after
  storage : after.storage = before.storage
  kept : ∀ var ∈ vars, ∀ binding, before.binding? var.id = some binding →
    after.binding? var.id = some binding
  runs : ∃ ops, Lists ops before after ∧ ∀ (module : Module) (fuel : Nat) (env : Env)
    (place : NodeId → Option Nat) (memory : Memory) (frame : Frame) (machine : Machine),
    depth ≤ fuel → after.Leads module → Anchors vars env place before frame →
    Mirrors tensors place memory machine.heap →
    Machine.Realizes
      (Machine.advance (Machine.runOp module (Machine.runBlock module fuel)) ops frame machine)
      (effect env memory) fun result step last => ∃ next, step = .next next ∧ next ≠ [] ∧
        Frame.Agrees before.module frame next ∧ Mirrors tensors place result last.heap

namespace Enacts

variable {depth : Nat} {effect : Env → Memory → Except Fault Memory}

/-- Nothing is built. -/
theorem of_rests (rests : before.Rests after) :
    Enacts tensors vars depth before after fun _ memory => .ok memory where
  emits := rests.emits
  storage := rests.storage
  kept var _ binding found := by rwa [Context.binding?, rests.bindings]
  runs := by
    refine ⟨[], fun block rest found _ listed => ?_, ?_⟩
    · rw [rests.module]
      simpa using listed
    · intro module fuel env place memory frame machine _ _ anchors mirrors
      exact .of_ok ⟨frame, rfl, anchors.entered, .refl _ _, mirrors⟩

/-- One effect after the other. -/
theorem seq {later : Env → Memory → Except Fault Memory}
    (start : Enacts tensors vars depth before middle effect)
    (end_ : Enacts tensors vars depth middle after later) (ends : before.AtEnds) :
    Enacts tensors vars depth before after fun env memory => effect env memory >>= later env where
  emits := start.emits.trans end_.emits
  storage := end_.storage.trans start.storage
  kept var listed binding found := end_.kept var listed binding (start.kept var listed binding found)
  runs := by
    obtain ⟨ops, lists, begins⟩ := start.runs
    obtain ⟨more, moreLists, continues⟩ := end_.runs
    refine ⟨ops ++ more, Computes.Lists.append lists start.emits.stack moreLists, ?_⟩
    intro module fuel env place memory frame machine deep leads anchors mirrors
    have grown : before.module.Extends middle.module :=
      (start.emits.grows ends).mono fun _ _ => trivial
    have middleLeads := end_.emits.leads (start.emits.atEnds ends) leads
    rw [Machine.advance_append]
    refine (begins module fuel env place memory frame machine deep middleLeads anchors
      mirrors).bind ?_
    rintro result step last - ⟨next, rfl, entered, agrees, reached⟩
    have anchored := anchors.transfer start.kept start.storage grown entered agrees
    refine (continues module fuel env place result next last deep leads anchored reached).mono ?_
    rintro final step machine - ⟨further, rfl, inside, stillAgrees, finished⟩
    exact ⟨further, rfl, inside, agrees.trans grown stillAgrees, finished⟩

variable {β : Type} {meaning : Env → Memory → Except Fault β} {good : β → Frame → Prop}

/-- A computation whose result is dropped. -/
theorem of_computes (serves : Serves tensors vars nodes before)
    (computes : Computes nodes before after (fun setting => meaning setting.env setting.memory)
      good) :
    Enacts tensors vars depth before after fun env memory => do
      let _ ← meaning env memory
      return memory where
  emits := computes.emits
  storage := computes.storage
  kept _ _ _ found := computes.kept found
  runs := by
    obtain ⟨ops, lists, performs⟩ := computes.runs
    refine ⟨ops, lists, fun module fuel env place memory frame machine _ leads anchors mirrors => ?_⟩
    refine (performs module _ ⟨env, memory, place⟩ frame machine leads.extends_
      (serves.represents anchors mirrors)).map ?_
    rintro b step last - ⟨next, rfl, heap, agrees, reached, -⟩
    exact ⟨next, rfl, reached.entered, agrees, heap ▸ mirrors⟩

/-- A computation, and one operation with an effect that uses its result. -/
theorem of_computes_then {effect : Env → Memory → β → Except Fault Memory} {id : OpId}
    (serves : Serves tensors vars nodes before)
    (computes : Computes nodes before middle (fun setting => meaning setting.env setting.memory)
      good)
    (ends : before.AtEnds) (emits : Context.Emits [] middle after) (lists : Lists [id] middle after)
    (storage : after.storage = middle.storage)
    (kept : ∀ var ∈ vars, ∀ binding, before.binding? var.id = some binding →
      after.binding? var.id = some binding)
    (runs : ∀ (module : Module) (fuel : Nat) (env : Env) (place : NodeId → Option Nat)
      (memory : Memory) (frame : Frame) (machine : Machine) (b : β), depth ≤ fuel →
      after.Leads module → Represents nodes ⟨env, memory, place⟩ middle frame machine.heap →
      Anchors vars env place middle frame → Mirrors tensors place memory machine.heap →
      meaning env memory = .ok b → good b frame →
      Machine.Realizes (Machine.runOp module (Machine.runBlock module fuel) id frame machine)
        (effect env memory b) fun result step last =>
          step = .next frame ∧ Mirrors tensors place result last.heap) :
    Enacts tensors vars depth before after fun env memory =>
      meaning env memory >>= effect env memory where
  emits := computes.emits.trans emits
  storage := storage.trans computes.storage
  kept := kept
  runs := by
    obtain ⟨ops, opsLists, performs⟩ := computes.runs
    refine ⟨ops ++ [id], Computes.Lists.append opsLists computes.emits.stack lists, ?_⟩
    intro module fuel env place memory frame machine deep leads anchors mirrors
    have grown : before.module.Extends middle.module :=
      (computes.emits.grows ends).mono fun _ _ => trivial
    have middleLeads := emits.leads (computes.emits.atEnds ends) leads
    rw [Machine.advance_append]
    refine (performs module _ ⟨env, memory, place⟩ frame machine middleLeads.extends_
      (serves.represents anchors mirrors)).bind ?_
    rintro b step last known ⟨next, rfl, heap, agrees, reached, holds⟩
    have anchored := anchors.transfer (fun _ _ _ found => computes.kept found) computes.storage
      grown reached.entered agrees
    rw [Step.andThen, Machine.advance_singleton]
    refine (runs module fuel env place memory next last b deep leads reached anchored
      (heap ▸ mirrors) known holds).mono ?_
    rintro result step final - ⟨rfl, finished⟩
    exact ⟨next, rfl, reached.entered, agrees, finished⟩

/-- The operations of a block with its end have the effect of those before the end. -/
theorem realizes_end {module : Module} {fuel : Nat} {ops : List OpId} {yield : OpId}
    {yieldOp : Operation} {machine : Machine} {origin : Module}
    (performs : Machine.Realizes
      (Machine.advance (Machine.runOp module (Machine.runBlock module fuel)) ops frame machine)
      (effect env memory) fun result step last => ∃ next, step = .next next ∧ next ≠ [] ∧
        Frame.Agrees origin frame next ∧ Mirrors tensors place result last.heap)
    (carries : module.Carries yield yieldOp { kind := .yield }) :
    Machine.Realizes
      (Machine.advance (Machine.runOp module (Machine.runBlock module fuel)) (ops ++ [yield]) frame
        machine)
      (effect env memory) fun result step last =>
        step.values? = none ∧ Mirrors tensors place result last.heap := by
  rw [Machine.advance_append, ← bind_pure (effect env memory)]
  refine performs.bind ?_
  rintro result step last - ⟨next, rfl, -, -, reached⟩
  rw [Step.andThen, Machine.advance_yield carries]
  exact .of_ok ⟨rfl, reached⟩

section Blocks

variable {id : OpId} {body : BlockId} {created inside done last : Context} {deeds : List Deed}
  (serves : Serves tensors vars nodes before) (ends : before.AtEnds)
  (emits : Context.Emits [] middle after) (insideStorage : inside.storage = created.storage)
  (afterStorage : after.storage = done.storage)
  (kept : ∀ var ∈ vars, ∀ binding, before.binding? var.id = some binding →
    after.binding? var.id = some binding)
include serves ends emits insideStorage afterStorage kept

/-- A loop around operations repeats their effect for every number of its range. -/
theorem loop {lower upper : Bound} {low high : BuildM.LoopBound} {spec : BuildM.LoopSpec}
    {var : Expr}
    (computes : Computes nodes before middle
      (fun setting => do
        return (← Meaning.bound setting.env setting.memory lower,
          ← Meaning.bound setting.env setting.memory upper))
      fun range frame => low.Denotes frame range.1 ∧ high.Denotes frame range.2)
    (rooted : middle.Rooted)
    (encloses : Encloses (loopDraft low high spec) [.scalar .index] id body middle created inside
      done last after)
    (counts : inside.bindings = (created.bind var.id (.value (.arg body 0))).bindings)
    (new : ∀ known ∈ vars, known.id ≠ var.id) (small : spec.step < 2 ^ 63)
    (inner : Enacts tensors (var :: vars) depth inside done (Deed.performAll deeds)) :
    Enacts tensors vars (depth + 1) before after
      (Deed.loop var.id lower upper spec.step deeds).perform := by
  have middleEnds := computes.emits.atEnds ends
  have opens := encloses.opens
  obtain ⟨ops, lists, performs⟩ := inner.runs
  have storage : after.storage = middle.storage := by
    rw [afterStorage, inner.storage, insideStorage, opens.creates.storage]
  have meaning : (Deed.loop var.id lower upper spec.step deeds).perform = fun env memory =>
      (do return (← Meaning.bound env memory lower, ← Meaning.bound env memory upper)) >>=
        fun range => do
          let memory ← (counters range.1 range.2 (max spec.step 1)).foldlM
            (fun memory number => Deed.performAll deeds (env.set var.id number) memory) memory
          Meaning.checked (Machine.LoopRange.overflows ⟨range.1, range.2, max spec.step 1⟩)
          return memory := by
    funext env memory
    rw [Except.pair_bind, Deed.perform]
  rw [meaning]
  refine of_computes_then serves computes ends emits (encloses.listsOp middleEnds rooted) storage
    kept ?_
  intro module fuel env place memory frame machine range deep leads _ anchors mirrors _ denotes
  obtain ⟨fuel, rfl⟩ : ∃ less, fuel = less + 1 := ⟨fuel - 1, by omega⟩
  obtain ⟨op, carries, regions⟩ := encloses.carries middleEnds leads
  obtain ⟨yield, yieldOp, listed, yieldCarries⟩ := encloses.block? lists rooted leads
  refine Machine.loop_realizes carries.found carries.kind carries.operands carries.attributes
    regions listed small denotes.1 denotes.2 (fun number state machine inRange holds => ?_) mirrors
  -- One iteration: the block is entered with its number, and the operations in it are executed.
  have numberFits : (Scalar.int number).Fits .index := by
    have bounds := mem_counters inRange
    have least := fits_index_iff.mp denotes.1.fits
    have greatest := fits_index_iff.mp denotes.2.fits
    exact fits_index_iff.mpr ⟨by omega, by omega⟩
  have typed : created.module.valueType? (.arg body 0) = some (.scalar .index) := by
    simp [Module.valueType?, opens.listed]
  have grown : middle.module.Extends created.module :=
    (opens.creates.emits.grows middleEnds).mono fun _ _ => trivial
  have entered : Anchors vars env place created (frame.enter body [.scalar (.int number)]) :=
    anchors.transfer (fun var _ binding found => by rwa [Context.binding?, opens.creates.bindings])
      opens.creates.storage grown (by simp [Frame.enter]) (.enter opens.size_le _)
  have counted := entered.count new (Frame.find?_enter_arg rfl) typed numberFits
  have starts : Anchors (var :: vars) (env.set var.id number) place inside
      (frame.enter body [.scalar (.int number)]) := by
    refine counted.transfer (fun var _ binding found => ?_) insideStorage ?_ counted.entered
      (.refl _ _)
    · rwa [Context.binding?, counts]
    · rw [encloses.insideModule]
      exact .refl _ _
  refine (realizes_end (performs module fuel _ place state _ machine (by omega)
    (encloses.doneLeads middleEnds leads) starts holds) yieldCarries).mono ?_
  rintro result step last - ⟨-, reached⟩
  exact reached

/-- A conditional around operations has their effect if its condition is one. -/
theorem branch {condition : Expr} {index : Value}
    (computes : Computes nodes before middle (fun setting => setting.value condition)
      fun scalar frame => ∃ number, scalar = .int number ∧
        frame.find? index = some (.scalar (.int number)) ∧ (Scalar.int number).Fits .index)
    (rooted : middle.Rooted)
    (encloses : Encloses
      { kind := .affineIf, operands := [index], regions := [[]],
        attributes := [("condition", .integerSet .isOne)] }
      [] id body middle created inside done last after)
    (insideBindings : inside.bindings = created.bindings)
    (inner : Enacts tensors vars depth inside done (Deed.performAll deeds)) :
    Enacts tensors vars (depth + 1) before after (Deed.branch condition deeds).perform := by
  have middleEnds := computes.emits.atEnds ends
  have opens := encloses.opens
  obtain ⟨ops, lists, performs⟩ := inner.runs
  have storage : after.storage = middle.storage := by
    rw [afterStorage, inner.storage, insideStorage, opens.creates.storage]
  have meaning : (Deed.branch condition deeds).perform = fun env memory =>
      condition.value env memory >>= fun scalar =>
        if scalar.asInt? = some 1 then Deed.performAll deeds env memory else .ok memory := by
    funext env memory
    rw [Deed.perform]
    rfl
  rw [meaning]
  refine of_computes_then serves computes ends emits (encloses.listsOp middleEnds rooted) storage
    kept ?_
  rintro module fuel env place memory frame machine scalar deep leads - anchors mirrors -
    ⟨number, rfl, found, fits⟩
  obtain ⟨fuel, rfl⟩ : ∃ less, fuel = less + 1 := ⟨fuel - 1, by omega⟩
  obtain ⟨op, carries, regions⟩ := encloses.carries middleEnds leads
  obtain ⟨yield, yieldOp, listed, yieldCarries⟩ := encloses.block? lists rooted leads
  have grown : middle.module.Extends inside.module := by
    rw [encloses.insideModule]
    exact (opens.creates.emits.grows middleEnds).mono fun _ _ => trivial
  have starts : Anchors vars env place inside (frame.enter body []) := by
    refine anchors.transfer (fun var _ binding found => ?_)
      (insideStorage.trans opens.creates.storage) grown (by simp [Frame.enter])
      (.enter opens.size_le _)
    rwa [Context.binding?, insideBindings, opens.creates.bindings]
  have one : (Scalar.int number).asInt? = some 1 ↔ number = 1 := by simp [Scalar.asInt?]
  simp only [one]
  refine Machine.conditional_realizes carries.found carries.kind carries.operands
    carries.attributes regions listed found fits (fun _ holds => ?_) mirrors
  exact realizes_end (performs module fuel env place memory _ machine (by omega)
    (encloses.doneLeads middleEnds leads) starts holds) yieldCarries

end Blocks

end Enacts

namespace BuildM

/-- A node that has not been built yet is bound to a value. -/
theorem onceValue_value {id : NodeId} {name : String} {action : BuildM Value}
    (free : context.binding? id = none) :
    Ensures (onceValue id name action) context (fun binding _ => ∃ value, binding = .value value)
      (fun _ => True) := by
  rw [onceValue, once, ensures_bind, ensures_get, free]
  simp only [ensures_bind, ensures_emit, ensures_map, ensures_bindNode, ensures_pure]
  rw [Ensures]
  split
  · exact ⟨_, rfl⟩
  · trivial

theorem build_value {expr : Expr} (flat : expr.isFlat = true)
    (free : context.binding? expr.id = none) :
    Ensures (build expr) context (fun binding _ => ∃ value, binding = .value value)
      (fun _ => True) := by
  cases expr with
  | store | call | reduce => cases flat
  | _ =>
      rw [build]
      exact onceValue_value free

/-- Building an expression that has not been built yet computes it. -/
theorem build_enacts {depth : Nat} (serves : Serves tensors vars nodes context) {expr : Expr}
    (member : nodes expr) (flat : expr.isFlat = true) (plain : expr.loopName? = none)
    (ends : context.AtEnds) :
    Ensures (build expr) context
      (fun _ after =>
        Enacts tensors vars depth context after (Deed.evaluate expr).perform ∧
        ∀ {other : NodeId} {binding : Binding}, after.binding? other = some binding →
          context.binding? other = some binding ∨
            ∃ expr, nodes expr ∧ expr.loopName? = none ∧ expr.id = other)
      (fun _ => True) := by
  refine ((build_value flat (serves.free member plain)).and
    (build_built serves.graph expr flat member ends)).mono ?_ fun _ _ => trivial
  rintro _ after ⟨⟨value, rfl⟩, built⟩
  obtain ⟨-, computes⟩ := built value rfl
  have meaning : (Deed.evaluate expr).perform = fun env memory => do
      let _ ← expr.value env memory
      return memory := by
    funext env memory
    rw [Deed.perform]
  rw [meaning]
  exact ⟨.of_computes serves computes, computes.fresh⟩

/-- Building a store that has not been built yet computes its value, and writes it. -/
theorem build_store_enacts {depth : Nat} (serves : Serves tensors vars nodes context) {id : NodeId}
    {tensor : Tensor} {value : Expr} {indices : List Expr}
    (member : nodes (.store id tensor value indices)) (flat : value.isFlat = true)
    (ends : context.AtEnds) :
    Ensures (build (.store id tensor value indices)) context
      (fun _ after =>
        Enacts tensors vars depth context after (Deed.write id tensor value indices).perform ∧
        ∀ {other : NodeId} {binding : Binding}, after.binding? other = some binding →
          context.binding? other = some binding ∨
            ∃ expr, nodes expr ∧ expr.loopName? = none ∧ expr.id = other)
      (fun _ => True) := by
  have graph := serves.graph
  have below : nodes value := graph.operands member value (by simp [Expr.operands])
  obtain ⟨type, -⟩ := graph.formed member
  have free : context.binding? id = none := serves.free member rfl
  rw [build, once, ensures_bind, ensures_get, free]
  dsimp only
  rw [ensures_bind, ensures_emit, ensures_bind]
  refine operand_built (build_built graph value flat below
    (show (context.emit (.materialize id "store")).AtEnds from ends))
    fun stored middle bound computes => ?_
  simp only [emitStore, storageOf, ensures_bind, ensures_get]
  cases found : middle.storage? tensor with
  | none => trivial
  | some memref =>
      simp only [ensures_pure]
      refine (affineAccess_reads indices middle).mono ?_ fun _ _ => trivial
      rintro ⟨map, operands⟩ access ⟨refs, read, rfl, counters⟩
      refine (create_creates _ _).mono (fun store last creates => ?_) fun _ _ => trivial
      have stand := Extraction.access_stands graph.operands
        (fun index listed => graph.operands member index (by simp [Expr.operands, listed])) read
      have computed := Computes.of_emit computes
      have emits : Context.Emits [] middle (last.bind id (.op store)) :=
        ((Context.Emits.emit middle _).trans creates.emits).trans (.bind last _ _)
      have bindings : ∀ other, (last.bind id (.op store)).binding? other =
          if id = other then some (.op store) else middle.binding? other := by
        intro other
        rw [Context.binding?_bind, Context.binding?, creates.bindings]
        rfl
      refine ⟨?_, fun {other binding} known => ?_⟩
      · have meaning : (Deed.write id tensor value indices).perform = fun env memory =>
            value.value env memory >>= fun scalar => do
              let tuple ← Meaning.indices env indices
              let buffer ← Meaning.contents memory tensor
              let written ← Meaning.write buffer tuple scalar
              return memory.set tensor.id written := by
          funext env memory
          rw [Deed.perform]
        rw [meaning]
        refine Enacts.of_computes_then serves computed ends emits creates.lists creates.storage
          (fun var listed binding known => ?_) ?_
        · have different : id ≠ var.id := by
            intro same
            rw [← same, free] at known
            cases known
          rw [bindings, if_neg different]
          exact computed.kept known
        · intro module fuel env place memory frame machine scalar _ leads represents anchors
            mirrors meaning _
          obtain ⟨op, carries, -⟩ := creates.carries
          have carries := carries.of_extends leads.extends_
          obtain ⟨handle, buffer, backs⟩ := represents.stored found
          obtain ⟨numbers, known, values⟩ := represents.numbers stand counters
          have bears := represents.operand below bound meaning type
          have attr : (op.attr? "map").bind Attribute.asMap? = some map := by
            rw [Operation.attr?, carries.attributes]
            rfl
          have effect : (do
              let tuple ← Meaning.indices env indices
              let buffer ← Meaning.contents memory tensor
              let written ← Meaning.write buffer tuple scalar
              return memory.set tensor.id written) =
              (Meaning.evalMap map (numbers.map Int64.ofInt) >>= fun tuple =>
                Meaning.write buffer tuple scalar) >>= fun written =>
                  pure (memory.set tensor.id written) := by
            rw [Meaning.indices_eq read known, Meaning.contents_eq backs.known, bind_assoc]
            rfl
          have writes : Machine.Realizes
              (Machine.runOp module (Machine.runBlock module fuel) store frame machine) _ _ :=
            ⟨Meaning.write_proper, Machine.store_delivers carries.found carries.kind
              carries.operands attr bears.found backs.found backs.held values⟩
          rw [effect]
          refine writes.map ?_
          rintro written step final wrote ⟨rfl, heap⟩
          obtain ⟨offset, rfl⟩ := Meaning.exists_put_of_write wrote
          refine ⟨rfl, ?_⟩
          rw [heap]
          exact mirrors.write (serves.args member rfl) backs.placed backs.known bears.fits
      · rw [bindings] at known
        split at known
        · rename_i same
          exact .inr ⟨_, member, rfl, same⟩
        · exact computed.fresh known

end BuildM

end AffineKernel
