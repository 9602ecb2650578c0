import AffineKernel.Proofs.Build.Access
import AffineKernel.Proofs.Build.Runs

/-!
# Nodes are materialized once

Building a node of a pool is a run over nodes that it reaches
(`BuildM.build_runs`): first over those below its operands, from left to right,
and at last over the node itself. If building fails, the run is cut off; what
has been created since its last node is not bound.

What a node creates once its operands are bound is told by `BuildM.Adding`. It
is one operation, except that a floor quotient of floats is two. A reduction
creates more, but leaves no binding of its nest, as long as no axis is bound
before.
-/

set_option autoImplicit false

namespace AffineKernel

namespace BuildM

open Context

variable {α β : Type} {context after : Context}

/-! ## Nodes that are built already -/

theorem once_bound {id : NodeId} {name : String} {action : BuildM Binding} {binding : Binding}
    (built : once id name action context = .ok binding after) :
    after.binding? id = some binding := by
  simp only [once, EStateM.get_bind_apply] at built
  cases bound : context.binding? id with
  | some known =>
      rw [bound] at built
      cases built
      exact bound
  | none =>
      rw [bound] at built
      obtain ⟨_, _, _, built⟩ := EStateM.bind_eq_ok built
      obtain ⟨_, middle, _, built⟩ := EStateM.bind_eq_ok built
      cases built
      simp [Context.binding?_bind]

theorem once_of_bound {id : NodeId} {name : String} {action : BuildM Binding} {binding : Binding}
    (bound : context.binding? id = some binding) :
    once id name action context = .ok binding context := by
  simp only [once, EStateM.get_bind_apply, bound]
  rfl

theorem build_eq_once (expr : Expr) :
    ∃ (name : String) (action : BuildM Binding), build expr = once expr.id name action := by
  cases expr <;> rw [build] <;> exact ⟨_, _, rfl⟩

/-- A node that is bound yields its binding. -/
theorem build_of_bound {expr : Expr} {binding : Binding}
    (bound : context.binding? expr.id = some binding) :
    build expr context = .ok binding context := by
  obtain ⟨name, action, same⟩ := build_eq_once expr
  rw [same]
  exact once_of_bound bound

/-- A node that was built is bound. -/
theorem build_bound {expr : Expr} {binding : Binding}
    (built : build expr context = .ok binding after) : after.binding? expr.id = some binding := by
  obtain ⟨name, action, same⟩ := build_eq_once expr
  rw [same] at built
  exact once_bound built

/-- What the first building of a node did: its action, and then its binding. -/
theorem once_eq_ok {id : NodeId} {name : String} {action : BuildM Binding} {binding : Binding}
    (unbound : context.binding? id = none)
    (built : once id name action context = .ok binding after) :
    ∃ made, action (context.emit (.materialize id name)) = .ok binding made ∧
      after = made.bind id binding := by
  simp only [once, EStateM.get_bind_apply, unbound] at built
  obtain ⟨_, _, emitted, built⟩ := EStateM.bind_eq_ok built
  cases emitted
  obtain ⟨_, made, acted, built⟩ := EStateM.bind_eq_ok built
  cases built
  exact ⟨made, acted, rfl⟩

theorem onceValue_eq_ok {id : NodeId} {name : String} {action : BuildM Value} {binding : Binding}
    (unbound : context.binding? id = none)
    (built : onceValue id name action context = .ok binding after) :
    ∃ value made, binding = .value value ∧
      action (context.emit (.materialize id name)) = .ok value made ∧
      after = made.bind id (.value value) := by
  obtain ⟨made, acted, same⟩ := once_eq_ok unbound built
  rw [map_eq_pure_bind] at acted
  obtain ⟨value, last, found, returned⟩ := EStateM.bind_eq_ok acted
  cases returned
  exact ⟨value, made, rfl, found, same⟩

/-! ## What single actions create -/

/-- An action creates operations and binds nothing; its result goes with the operations. -/
def Adding (action : BuildM α) (good : α → List OpId → Prop) : Prop :=
  ∀ context, Ensures action context (fun a after => ∃ ops, Creates context ops after ∧ good a ops)
    (Spares context)

/-- An action creates nothing. -/
abbrev Silent (action : BuildM α) : Prop := Adding action fun _ ops => ops = []

/-- A value is the result of the last one of so many operations. -/
def LastOf (count : Nat) (value : Value) (ops : List OpId) : Prop :=
  ops.length = count ∧ ∃ last, ops.getLast? = some last ∧ value = .result last 0

namespace Adding

variable {action : BuildM β} {next : β → BuildM α} {middle : β → List OpId → Prop}
  {good : α → List OpId → Prop}

theorem pure {a : α} (made : good a []) : Adding (Pure.pure a) good :=
  fun context => ⟨[], .refl context, made⟩

theorem throw (error : BuildError) : Adding (MonadExcept.throw error) good :=
  fun context => Spares.chains.refl context

theorem bind (first : Adding action middle)
    (second : ∀ b ops, middle b ops → Adding (next b) fun a more => good a (ops ++ more)) :
    Adding (action >>= next) good := by
  intro context
  rw [ensures_bind]
  refine (first context).mono ?_ fun _ failed => failed
  rintro b between ⟨ops, adds, made⟩
  refine (second b ops made between).mono ?_ fun after failed =>
    Spares.chains.trans adds.toSpares failed
  rintro a after ⟨more, further, done⟩
  exact ⟨ops ++ more, adds.trans further, done⟩

/-- A first step that creates nothing. -/
theorem silent_bind (first : Silent action) (second : ∀ b, Adding (next b) good) :
    Adding (action >>= next) good := by
  refine first.bind ?_
  rintro b _ rfl
  exact second b

end Adding

theorem create_adding (draft : OpDraft) : Adding (create draft) fun id ops => ops = [id] := by
  intro context
  have created : Ensures (create draft) context
      (fun id after => after.module.size = context.module.size + 1 ∧
        ∀ point, context.stack.head? = some point →
          context.module.added after.module point.block = [id]) fun _ => True := by
    refine ensures_create (fun point rest stack => ?_) fun _ => trivial
    refine ⟨Module.ops_size_create, fun other head => ?_⟩
    rw [stack] at head
    cases head
    exact Module.added_create _ _ _
  have kept := (create_emits draft context).and (create_quiet draft context)
  refine (created.and kept).mono ?_ fun after failed => ⟨failed.2.1, failed.2.2.binding?⟩
  rintro id after ⟨⟨counted, listed⟩, emits, quiet⟩
  exact ⟨[id], ⟨⟨emits, quiet.binding?⟩, listed, counted⟩, rfl⟩

theorem createValue_adding (kind : OpKind) (operands : List Value) (type : ValueType)
    (attributes : List (String × Attribute)) :
    Adding (createValue kind operands type attributes) (LastOf 1) := by
  refine (create_adding _).bind ?_
  rintro id _ rfl
  exact .pure ⟨rfl, id, rfl, rfl⟩

theorem valueType_silent (expr : Expr) : Silent (valueType expr) := fun context =>
  ensures_valueType (fun _ _ => ⟨[], .refl context, rfl⟩) (Spares.chains.refl context)

theorem needValue_silent (name : String) (binding : Binding) : Silent (needValue name binding) := by
  cases binding with
  | value value => exact .pure rfl
  | op id => exact .throw _

theorem storageOf_silent (tensor : Tensor) : Silent (storageOf tensor) := by
  intro context
  simp only [storageOf, ensures_bind, ensures_get]
  split
  · exact ⟨[], .refl context, rfl⟩
  · exact Spares.chains.refl context

theorem affineAccess_silent (indices : List Expr) : Silent (affineAccess indices) := by
  intro context
  refine (affineAccess_reads indices context).mono ?_ ?_
  · rintro made after ⟨refs, -, rfl, -⟩
    exact ⟨[], .emit context _, rfl⟩
  · rintro after (rfl | ⟨event, rfl⟩)
    · exact Spares.chains.refl _
    · exact (Creates.emit context event).toSpares

/-- A floor quotient of floats is two operations. -/
theorem emitBinary_adding (id : NodeId) (kind : BinaryKind) (dtype : DType) (lhs rhs : Expr)
    (left right : Value) :
    Adding (emitBinary kind dtype left right)
      (LastOf (Expr.binary id dtype kind lhs rhs).operationCount) := by
  have lowered : Silent (liftExcept (kind.lower dtype)) := fun context =>
    ensures_liftExcept (fun _ _ => ⟨[], .refl context, rfl⟩) (Spares.chains.refl context)
  refine lowered.silent_bind fun op => (createValue_adding _ _ _ _).bind ?_
  rintro result ops ⟨count, last, listed, rfl⟩
  split
  · rename_i floors
    obtain ⟨rfl, isFloat⟩ := floors
    refine fun context => (createValue_adding _ _ _ _ context).mono ?_ fun _ failed => failed
    rintro value after ⟨more, adds, one, final, found, rfl⟩
    refine ⟨more, adds, ?_, final, ?_, rfl⟩
    · simp [count, one, Expr.operationCount, isFloat]
    · rw [List.getLast?_append, found, Option.some_or]
  · rename_i plain
    refine .pure ⟨?_, last, by simpa using listed, rfl⟩
    rw [List.append_nil, count]
    unfold Expr.operationCount
    split
    · rename_i same
      cases same
      simp_all
    · rfl

theorem emitCast_adding (value : Value) {source target : DType} (different : source ≠ target) :
    Adding (emitCast value source target) (LastOf 1) := by
  rw [emitCast, if_neg different]
  exact createValue_adding _ _ _ _

theorem emitLoad_adding (tensor : Tensor) (indices : List Expr) :
    Adding (emitLoad tensor indices) (LastOf 1) :=
  (storageOf_silent tensor).silent_bind fun _ => (affineAccess_silent indices).silent_bind fun _ =>
    createValue_adding _ _ _ _

theorem emitStore_adding (value : Value) (tensor : Tensor) (indices : List Expr) :
    Adding (emitStore value tensor indices) fun id ops => ops = [id] :=
  (storageOf_silent tensor).silent_bind fun _ => (affineAccess_silent indices).silent_bind fun _ =>
    create_adding _

theorem emitCall_adding (dtype : Option DType) (callee : String) (args : List Value) :
    Adding (emitCall dtype callee args) fun binding ops => ∃ last, ops = [last] ∧
      binding = if dtype.isSome then .value (.result last 0) else .op last := by
  refine (create_adding _).bind ?_
  rintro id _ rfl
  exact .pure ⟨id, rfl, rfl⟩

/-! ## What building binds -/

variable {pool : Pool} {fresh : NodeId} {before : Context} {root operand : Expr}
  {listed : List Expr} {done : α → Context → Prop}

/-- A node is bound after a run over nodes that it reaches. -/
def Completes (root : Expr) (before : Context) (binding : Binding) (after : Context) : Prop :=
  after.binding? root.id = some binding ∧
    ∃ made, Runs before made after ∧ ∀ entry ∈ made, root.Reaches entry.1

/-- After a run over nodes that a node reaches, some operations were created. -/
def Halts (root : Expr) (before after : Context) : Prop :=
  ∃ made middle, Runs before made middle ∧ Spares middle after ∧
    ∀ entry ∈ made, root.Reaches entry.1

/-- Operands of a node are bound after a run over nodes below it. -/
structure Prepares (root : Expr) (before : Context) (listed : List Expr) (after : Context) :
    Prop where
  runs : ∃ made, Runs before made after ∧ ∀ entry ∈ made, root.Above entry.1
  bound : ∀ operand ∈ listed, after.isBound operand.id = true

/-- The operations of a node were created after its operands were bound. -/
def Finishes (root : Expr) (before : Context) (binding : Binding) (after : Context) : Prop :=
  ∃ middle ops, Prepares root before root.valueOperands middle ∧ Spares middle after ∧
    (root.isReduce = false → Creates middle ops after ∧ ops.length = root.operationCount ∧
      ∃ last, ops.getLast? = some last ∧ binding = root.bindingTo last)

theorem Prepares.start (root : Expr) (before : Context) : Prepares root before [] before :=
  ⟨⟨[], .refl, by simp⟩, by simp⟩

theorem Prepares.halts (prepares : Prepares root before listed context)
    (spares : Spares context after) : Halts root before after := by
  obtain ⟨made, runs, above⟩ := prepares.runs
  exact ⟨made, context, runs, spares, fun entry there => (above entry there).to_reflTransGen⟩

/-- A step that creates nothing leaves operands bound. -/
theorem silent_prepares {action : BuildM β} {next : β → BuildM α} (silent : Silent action)
    (prepares : Prepares root before listed context)
    (later : ∀ b after, Prepares root before listed after →
      Ensures (next b) after done (Halts root before)) :
    Ensures (action >>= next) context done (Halts root before) := by
  rw [ensures_bind]
  refine (silent context).mono ?_ fun after failed => prepares.halts failed
  rintro b after ⟨_, adds, rfl⟩
  obtain ⟨made, runs, above⟩ := prepares.runs
  refine later b after ⟨⟨made, .quiet runs adds, above⟩, fun operand there => ?_⟩
  rw [isBound, adds.bindings]
  exact prepares.bound operand there

section Nodes

variable (sound : pool.Sound fresh) (member : pool.expr root) (unswept : before.Unswept pool)
include sound member unswept

/-- Building an operand binds it, and the operands that were bound remain so. -/
theorem operand_prepares {next : Value → BuildM α}
    (built : ∀ context : Context, context.Unswept pool →
      Ensures (build operand) context (Completes operand context) (Halts operand context))
    (prepares : Prepares root before listed context)
    (later : ∀ value after, Prepares root before (operand :: listed) after →
      Ensures (next value) after done (Halts root before))
    (uses : root.Uses operand := by simp [Expr.Uses, Expr.valueOperands, Expr.operands]) :
    Ensures (do
      let binding ← build operand
      let value ← needValue operand.name binding
      next value) context done (Halts root before) := by
  obtain ⟨made, runs, above⟩ := prepares.runs
  have inner := runs.unswept sound (fun entry there =>
    sound.reaches member (above entry there).to_reflTransGen) unswept
  have below : ∀ {more : List (Expr × List OpId)}, (∀ entry ∈ more, operand.Reaches entry.1) →
      ∀ entry ∈ made ++ more, root.Above entry.1 := by
    intro more reached entry there
    rcases List.mem_append.mp there with old | new
    · exact above entry old
    · exact Relation.TransGen.head' uses (reached entry new)
  rw [ensures_bind]
  refine (built context inner).mono ?_ ?_
  · rintro binding middle ⟨found, more, further, reached⟩
    have prepared : Prepares root before (operand :: listed) middle := by
      refine ⟨⟨made ++ more, runs.trans further, below reached⟩, ?_⟩
      rw [List.forall_mem_cons]
      exact ⟨Context.isBound_iff.mpr ⟨binding, found⟩,
        fun other there => further.stays.isBound (prepares.bound other there)⟩
    exact silent_prepares (needValue_silent _ _) prepared later
  · rintro after ⟨more, middle, further, spares, reached⟩
    exact ⟨made ++ more, middle, runs.trans further, spares,
      fun entry there => (below reached entry there).to_reflTransGen⟩

omit sound member unswept in
/-- The operations of a node are created when its operands are bound. -/
theorem creates_node {action : BuildM Binding} (prepares : Prepares root before listed context)
    (creates : Adding action fun binding ops => ops.length = root.operationCount ∧
      ∃ last, ops.getLast? = some last ∧ binding = root.bindingTo last)
    (covers : ∀ operand, root.Uses operand → operand ∈ listed := by
      simp [Expr.Uses, Expr.valueOperands, Expr.operands]) :
    Ensures action context (Finishes root before) (Halts root before) := by
  refine (creates context).mono ?_ fun after failed => prepares.halts failed
  rintro binding after ⟨ops, adds, made⟩
  exact ⟨context, ops, ⟨prepares.runs, fun operand uses => prepares.bound operand
    (covers operand uses)⟩, adds.toSpares, fun _ => ⟨adds, made⟩⟩

omit sound member unswept in
/-- The operations of a node with a value. -/
theorem creates_value {action : BuildM Value} (prepares : Prepares root before listed context)
    (valued : root.isStatement = false) (creates : Adding action (LastOf root.operationCount))
    (covers : ∀ operand, root.Uses operand → operand ∈ listed := by
      simp [Expr.Uses, Expr.valueOperands, Expr.operands]) :
    Ensures action context (fun value => Finishes root before (.value value))
      (Halts root before) := by
  rw [← ensures_map action Binding.value]
  refine creates_node prepares (fun context => ?_) covers
  rw [ensures_map]
  refine (creates context).mono ?_ fun _ failed => failed
  rintro value after ⟨ops, adds, count, last, found, rfl⟩
  exact ⟨ops, adds, count, last, found, by rw [Expr.bindingTo, valued]; rfl⟩

end Nodes

/-- A node that is not bound is bound by a run. -/
theorem once_runs (sound : pool.Sound fresh) (root : Expr) (member : pool.expr root)
    (plain : root.isAxis = false) (name : String) {action : BuildM Binding}
    (acts : ∀ before : Context, before.Unswept pool →
      Ensures action before (Finishes root before) (Halts root before))
    (unswept : context.Unswept pool) :
    Ensures (once root.id name action) context (Completes root context) (Halts root context) := by
  simp only [once, ensures_bind, ensures_get]
  split
  · rename_i binding found
    exact ⟨found, [], .refl, by simp⟩
  · rename_i unbound
    simp only [ensures_bind, ensures_emit, ensures_bindNode, ensures_pure]
    have started : Runs context [] (context.emit (.materialize root.id name)) :=
      .quiet .refl (.emit context _)
    refine (acts (context.emit _) unswept).mono ?_ ?_
    · rintro binding after ⟨middle, ops, prepares, spares, known⟩
      obtain ⟨made, runs, above⟩ := prepares.runs
      have whole : Runs context made middle := started.trans runs
      have gains : Gains middle root ops (after.bind root.id binding) := by
        refine ⟨?_, plain, prepares.bound, after, binding, spares, rfl, known⟩
        rw [← Bool.not_eq_true, whole.isBound_iff]
        rintro (⟨entry, there, same⟩ | bound)
        · exact sound.id_ne member (above entry there) same
        · rw [Context.isBound, unbound] at bound
          cases bound
      refine ⟨by simp [binding?_bind], made ++ [(root, ops)], .gain whole gains, ?_⟩
      rw [List.forall_mem_append, List.forall_mem_singleton]
      exact ⟨fun entry there => (above entry there).to_reflTransGen, .refl⟩
    · rintro after ⟨made, middle, runs, spares, reached⟩
      exact ⟨made, middle, started.trans runs, spares, reached⟩

/-- A node with a value that is not bound is bound by a run. -/
theorem onceValue_runs (sound : pool.Sound fresh) (root : Expr) (member : pool.expr root)
    (plain : root.isAxis = false) (name : String) {action : BuildM Value}
    (acts : ∀ before : Context, before.Unswept pool →
      Ensures action before (fun value => Finishes root before (.value value)) (Halts root before))
    (unswept : context.Unswept pool) :
    Ensures (onceValue root.id name action) context (Completes root context)
      (Halts root context) := by
  refine once_runs sound root member plain name (fun before unswept => ?_) unswept
  rw [ensures_map]
  exact acts before unswept

/-- What creates operations and leaves the table of bindings alone. -/
theorem keeps_spares {action : BuildM α} (emits : Keeps (Emits []) action)
    (quiet : Keeps Quiet action) : Keeps Spares action := fun context =>
  ((emits context).and (quiet context)).mono (fun _ _ both => ⟨both.1, both.2.binding?⟩)
    fun _ both => ⟨both.1, both.2.binding?⟩

/-- The nest of a reduction is built while no axis is bound: it leaves no binding. -/
theorem nest_spares (sound : pool.Sound fresh) {id : NodeId} {dtype : DType} {kind : ReduceKind}
    {body : Expr} {axes : List Expr} (member : pool.expr (.reduce id dtype kind body axes))
    (unswept : context.Unswept pool) (acc : Accumulator) :
    Ensures (inRegion (reduceNest acc kind dtype body axes)) context
      (fun _ after => Spares context after) (Spares context) := by
  have spares : ∀ after : Context, Emits [] context after ∧
      (∀ id, after.binding? id = context.binding? id ∨
        id ∈ sweptAxes axes ++ body.swept ∧ after.binding? id = none) → Spares context after := by
    rintro after ⟨emits, restored⟩
    refine ⟨emits, fun other => ?_⟩
    rcases restored other with same | ⟨swept, gone⟩
    · exact same
    · have free := unswept other (Pool.swept_axis sound _ member other swept)
      rw [isBound, Option.isSome_eq_false_iff, Option.isNone_iff_eq_none] at free
      rw [gone, free]
  have emits := emits_building.nest acc kind dtype body axes (build_emits body)
    (emits_building.axesLead axes) context
  exact (emits.and (nest_restores acc kind dtype body axes context)).mono
    (fun _ after => spares after) spares

/-- The operations of a reduction are created while no axis is bound. -/
theorem reduction_spares (sound : pool.Sound fresh) {id : NodeId} {dtype : DType}
    {kind : ReduceKind} {body : Expr} {axes : List Expr}
    (member : pool.expr (.reduce id dtype kind body axes)) (unswept : before.Unswept pool) :
    Ensures (do
      emit (.synthesizeReduction kind dtype axes.length)
      let acc ← openAccumulator kind dtype
      inRegion (reduceNest acc kind dtype body axes)
      acc.load) before (fun _ after => Spares before after) (Spares before) := by
  have opened : Keeps Spares (openAccumulator kind dtype) :=
    keeps_spares (emits_steps.openAccumulator kind dtype)
      (quiet_creations.openAccumulator kind dtype)
  simp only [ensures_bind, ensures_emit]
  have started := (Creates.emit before (.synthesizeReduction kind dtype axes.length)).toSpares
  refine (opened _).mono ?_ fun _ failed => Spares.chains.trans started failed
  intro acc middle stepped
  have first := Spares.chains.trans started stepped
  have still : middle.Unswept pool := fun id axis => by
    rw [isBound, first.bindings, ← isBound, unswept id axis]
  refine (nest_spares sound member still acc).mono ?_ fun _ failed =>
    Spares.chains.trans first failed
  intro _ last nested
  have loaded : Keeps Spares acc.load :=
    keeps_spares (emits_steps.accumulatorLoad acc) (quiet_creations.accumulatorLoad acc)
  exact (loaded last).mono
    (fun _ _ done => Spares.chains.trans (Spares.chains.trans first nested) done)
    fun _ failed => Spares.chains.trans (Spares.chains.trans first nested) failed

mutual

/-- Building a node of a pool is a run over nodes that it reaches, and binds it. If it fails, there
may be operations besides, but no bindings. -/
theorem build_runs (sound : pool.Sound fresh) : ∀ expr : Expr, pool.expr expr →
    ∀ context : Context, context.Unswept pool →
      Ensures (build expr) context (Completes expr context) (Halts expr context)
  | .constant id dtype value, member, _, unswept => by
      refine onceValue_runs sound (.constant id dtype value) member rfl _ (fun before _ => ?_)
        unswept
      exact creates_value (.start _ before) rfl (createValue_adding _ _ _ _)
  | .loopVar id name, member, _, unswept => by
      refine onceValue_runs sound (.loopVar id name) member rfl _ (fun before _ => ?_) unswept
      exact (Prepares.start _ before).halts (Spares.chains.refl before)
  | .axis id name lower upper, member, context, unswept => by
      have free := unswept id ⟨_, member, rfl, rfl⟩
      simp only [isBound, Option.isSome_eq_false_iff, Option.isNone_iff_eq_none] at free
      simp only [build, onceValue, once, ensures_bind, ensures_get, free]
      exact ⟨[], context, .refl, (Creates.emit context _).toSpares, by simp⟩
  | .unary id dtype kind source, member, _, unswept => by
      have below := sound.operands member
      simp only [Expr.operands, List.forall_mem_singleton] at below
      refine onceValue_runs sound (.unary id dtype kind source) member rfl _ (fun before free => ?_)
        unswept
      refine operand_prepares sound member free (build_runs sound source below) (.start _ before)
        fun x after prepared => ?_
      exact creates_value prepared rfl (createValue_adding _ _ _ _)
  | .binary id dtype kind lhs rhs, member, _, unswept => by
      have below := sound.operands member
      simp only [Expr.operands, List.forall_mem_cons] at below
      refine onceValue_runs sound (.binary id dtype kind lhs rhs) member rfl _
        (fun before free => ?_) unswept
      refine operand_prepares sound member free (build_runs sound lhs below.1) (.start _ before)
        fun a _ first => ?_
      refine operand_prepares sound member free (build_runs sound rhs below.2.1) first
        fun b _ second => ?_
      exact creates_value second rfl (emitBinary_adding id kind dtype lhs rhs a b)
  | .compare id kind lhs rhs, member, _, unswept => by
      have below := sound.operands member
      simp only [Expr.operands, List.forall_mem_cons] at below
      refine onceValue_runs sound (.compare id kind lhs rhs) member rfl _ (fun before free => ?_)
        unswept
      refine silent_prepares (valueType_silent lhs) (.start _ before) fun dtype _ start => ?_
      refine operand_prepares sound member free (build_runs sound lhs below.1) start
        fun a _ first => ?_
      refine operand_prepares sound member free (build_runs sound rhs below.2.1) first
        fun b _ second => ?_
      exact creates_value second rfl (createValue_adding _ _ _ _)
  | .cast id dtype source, member, _, unswept => by
      have below := sound.operands member
      simp only [Expr.operands, List.forall_mem_singleton] at below
      obtain ⟨sourceType, typed, different⟩ := sound.formed member
      refine onceValue_runs sound (.cast id dtype source) member rfl _ (fun before free => ?_)
        unswept
      rw [valueType, typed]
      refine operand_prepares sound member free (build_runs sound source below) (.start _ before)
        fun x _ prepared => ?_
      exact creates_value prepared rfl (emitCast_adding x different)
  | .load id tensor indices, member, _, unswept => by
      refine onceValue_runs sound (.load id tensor indices) member rfl _ (fun before _ => ?_)
        unswept
      exact creates_value (.start _ before) rfl (emitLoad_adding tensor indices)
  | .store id tensor value indices, member, _, unswept => by
      have below := sound.operands member value (by simp [Expr.operands])
      refine once_runs sound (.store id tensor value indices) member rfl _ (fun before free => ?_)
        unswept
      refine operand_prepares sound member free (build_runs sound value below) (.start _ before)
        fun x _ prepared => ?_
      refine creates_node prepared ?_
      refine (emitStore_adding x tensor indices).bind ?_
      rintro op _ rfl
      exact .pure ⟨rfl, op, rfl, rfl⟩
  | .select id dtype condition thenValue elseValue, member, _, unswept => by
      have below := sound.operands member
      simp only [Expr.operands, List.forall_mem_cons] at below
      refine onceValue_runs sound (.select id dtype condition thenValue elseValue) member rfl _
        (fun before free => ?_) unswept
      refine operand_prepares sound member free (build_runs sound condition below.1)
        (.start _ before) fun c _ first => ?_
      refine operand_prepares sound member free (build_runs sound thenValue below.2.1) first
        fun t _ second => ?_
      refine operand_prepares sound member free (build_runs sound elseValue below.2.2.1) second
        fun e _ third => ?_
      exact creates_value third rfl (createValue_adding _ _ _ _)
  | .call id dtype callee args, member, _, unswept => by
      refine once_runs sound (.call id dtype callee args) member rfl _ (fun before free => ?_)
        unswept
      rw [ensures_bind]
      refine (buildArgs_prepares sound member free args (fun _ there => there)
        (.start _ before)).mono (fun operands after prepared => ?_) fun _ failed => failed
      refine creates_node prepared ?_ fun operand uses => List.mem_append_left _ uses
      refine fun context => (emitCall_adding dtype callee operands context).mono ?_ fun _ failed =>
        failed
      rintro binding after ⟨_, adds, last, rfl, rfl⟩
      refine ⟨[last], adds, rfl, last, rfl, ?_⟩
      cases dtype <;> rfl
  | .getBit id value bit, member, _, unswept => by
      have below := sound.operands member
      simp only [Expr.operands, List.forall_mem_cons] at below
      refine onceValue_runs sound (.getBit id value bit) member rfl _ (fun before free => ?_)
        unswept
      refine operand_prepares sound member free (build_runs sound value below.1) (.start _ before)
        fun v _ first => ?_
      refine operand_prepares sound member free (build_runs sound bit below.2.1) first
        fun b _ second => ?_
      exact creates_value second rfl (createValue_adding _ _ _ _)
  | .reduce id dtype kind body axes, member, _, unswept => by
      rw [build_reduce]
      refine onceValue_runs sound (.reduce id dtype kind body axes) member rfl _
        (fun before free => ?_) unswept
      refine (reduction_spares sound member free).mono ?_ fun after failed =>
        (Prepares.start _ before).halts failed
      exact fun value after spares =>
        ⟨before, [], .start _ before, spares, fun single => by cases single⟩

/-- Building the arguments of a call binds them. -/
theorem buildArgs_prepares (sound : pool.Sound fresh) {root : Expr} (member : pool.expr root)
    {before : Context} (unswept : before.Unswept pool) : ∀ (args : List CallArg)
    {listed : List Expr} {context : Context}, (∀ expr ∈ CallArg.exprs args, root.Uses expr) →
      Prepares root before listed context → Ensures (buildArgs args) context
        (fun _ after => Prepares root before (CallArg.exprs args ++ listed) after)
        (Halts root before)
  | [], _, _, _, prepares => prepares
  | .expr value :: rest, listed, context, uses, prepares => by
      simp only [CallArg.exprs, List.forall_mem_cons] at uses
      have below := sound.operands member value (Expr.valueOperands_subset _ _ uses.1)
      rw [buildArgs]
      refine operand_prepares sound member unswept (build_runs sound value below) prepares
        (fun first after prepared => ?_) uses.1
      rw [ensures_bind]
      refine (buildArgs_prepares sound member unswept rest uses.2 prepared).mono ?_ fun _ failed =>
        failed
      rintro others last ⟨runs, bound⟩
      refine ⟨runs, fun operand there => bound operand ?_⟩
      simp only [CallArg.exprs, List.cons_append, List.mem_cons, List.mem_append] at there ⊢
      rwa [or_left_comm] at there
  | .tensor tensor :: rest, listed, context, uses, prepares => by
      rw [buildArgs]
      refine silent_prepares (storageOf_silent tensor) prepares fun first after prepared => ?_
      rw [ensures_bind]
      exact (buildArgs_prepares sound member unswept rest uses prepared).mono
        (fun _ _ done => done) fun _ failed => failed

end

end BuildM

end AffineKernel
