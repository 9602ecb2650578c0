import AffineKernel.Proofs.Build.Frame
import AffineKernel.Proofs.Build.Pool
import AffineKernel.Proofs.Semantics.Fitting
import AffineKernel.Proofs.Semantics.Operations

/-!
# Operations that compute what expressions mean

Building a node appends operations to the current block. They compute the value
of the node wherever they are executed: in every module that the module grows
into, from every frame that represents the context in which the node was built
(`Represents`). A context is represented when the value of every node that is
bound is in the frame, and the buffer of every tensor with storage is on the
heap.

`Computes` is this relation between two contexts. It is about a *meaning*, which
is what the operations compute in a setting; runs are put one after the other
(`Computes.seq`), and an operation that uses what was computed before it comes
last (`createValue_computes`).
-/

set_option autoImplicit false

namespace AffineKernel

/-- What expressions are evaluated in, and where the tensors are on the heap. -/
structure Setting where
  env : Env
  memory : Memory
  place : NodeId → Option Nat

/-- The value of an expression in a setting. -/
def Setting.value (setting : Setting) (expr : Expr) : Except Fault Scalar :=
  expr.value setting.env setting.memory

/-- Nodes that form a graph, as the constructors form it. -/
structure Graph (nodes : Expr → Prop) : Prop where
  operands : ∀ {expr : Expr}, nodes expr → ∀ operand ∈ expr.operands, nodes operand
  unique : ∀ {expr other : Expr}, nodes expr → nodes other → expr.id = other.id → expr = other
  formed : ∀ {expr : Expr}, nodes expr → expr.Formed

/-- A value of the module holds the value of an expression. -/
structure Bears (setting : Setting) (module : Module) (frame : Frame) (expr : Expr)
    (value : Value) (scalar : Scalar) (dtype : DType) : Prop where
  type : expr.dtype? = some dtype
  fits : scalar.Fits dtype
  meaning : setting.value expr = .ok scalar
  found : frame.find? value = some (.scalar scalar)
  typed : module.valueType? value = some (.scalar dtype)

/-- A value of the module holds the buffer of a tensor. -/
structure Backs (setting : Setting) (module : Module) (frame : Frame) (heap : Array Buffer)
    (id : NodeId) (value : Value) (handle : Nat) (buffer : Buffer) : Prop where
  found : frame.find? value = some (.buffer handle)
  placed : setting.place id = some handle
  held : heap[handle]? = some buffer
  known : setting.memory id = some buffer
  typed : ∃ type, module.valueType? value = some type

/-- A frame and a heap represent a context: what is bound and stored has its value there. -/
structure Represents (nodes : Expr → Prop) (setting : Setting) (context : Context)
    (frame : Frame) (heap : Array Buffer) : Prop where
  entered : frame ≠ []
  bound : ∀ {expr : Expr} {value : Value}, nodes expr →
    context.binding? expr.id = some (.value value) →
    ∃ scalar dtype, Bears setting context.module frame expr value scalar dtype
  stored : ∀ {id : NodeId} {value : Value}, context.storage.find? id = some value →
    ∃ handle buffer, Backs setting context.module frame heap id value handle buffer
  fits : ∀ {expr : Expr} {tensor : Tensor} {buffer : Buffer}, nodes expr →
    expr.tensor? = some tensor → setting.memory tensor.id = some buffer →
    ∀ scalar ∈ buffer.data, scalar.Fits tensor.dtype

/-- The values that a module has are the same in two frames. -/
def Frame.Agrees (module : Module) (before after : Frame) : Prop :=
  ∀ value type, module.valueType? value = some type → after.find? value = before.find? value

/-- A module with everything that another one has. -/
abbrev Module.Extends (before after : Module) : Prop := Module.Grows (fun _ => True) before after

variable {α β : Type} {nodes : Expr → Prop} {setting : Setting}

/-- Wherever `before` is represented, executing operations delivers a meaning, leaves the heap
alone, and ends where `after` is represented. -/
def Performs (nodes : Expr → Prop) (ops : List OpId) (before after : Context)
    (meaning : Setting → Except Fault β) (good : β → Frame → Prop) : Prop :=
  ∀ (module : Module) (run : Machine.RunBlock) (setting : Setting) (frame : Frame)
    (machine : Machine),
    after.module.Extends module → Represents nodes setting before frame machine.heap →
    Machine.Realizes (Machine.advance (Machine.runOp module run) ops frame machine)
      (meaning setting) fun b step last => ∃ next, step = .next next ∧
        last.heap = machine.heap ∧ Frame.Agrees before.module frame next ∧
        Represents nodes setting after next last.heap ∧ good b next

/-- The operations that the current block receives. -/
def Lists (ops : List OpId) (before after : Context) : Prop :=
  ∀ (block : BlockId) (rest : List InsertionPoint) (found : Block),
    before.stack = .atEnd block :: rest → before.module.block? block = some found →
    after.module.block? block = some { found with ops := found.ops ++ ops }

/-- What is built between two contexts computes a meaning. -/
structure Computes (nodes : Expr → Prop) (before after : Context)
    (meaning : Setting → Except Fault β) (good : β → Frame → Prop) : Prop where
  emits : Context.Emits [] before after
  storage : after.storage = before.storage
  kept : ∀ {id : NodeId} {binding : Binding}, before.binding? id = some binding →
    after.binding? id = some binding
  /-- Only nodes that are no loop variables are bound anew. -/
  fresh : ∀ {id : NodeId} {binding : Binding}, after.binding? id = some binding →
    before.binding? id = some binding ∨ ∃ expr, nodes expr ∧ expr.loopName? = none ∧ expr.id = id
  runs : ∃ ops, Lists ops before after ∧ Performs nodes ops before after meaning good

namespace Frame.Agrees

variable {module wider : Module} {first second third : Frame}

theorem refl (module : Module) (frame : Frame) : Agrees module frame frame := fun _ _ _ => rfl

theorem trans (before : Agrees module first second) (extends_ : module.Extends wider)
    (after : Agrees wider second third) : Agrees module first third := by
  intro value type typed
  rw [after value type (extends_.valueType? typed), before value type typed]

end Frame.Agrees

/-! ## Frames -/

theorem Frame.Agrees.define {module : Module} {frame : Frame} {value : Value} {datum : Datum}
    (new : module.valueType? value = none) : Frame.Agrees module frame (frame.define value datum) := by
  intro other type typed
  refine Frame.find?_define_of_ne fun same => ?_
  rw [← same, new] at typed
  cases typed

/-- A result of an operation that the module does not have yet. -/
theorem Module.valueType?_next (module : Module) (position : Nat) :
    module.valueType? (.result ⟨module.ops.size⟩ position) = none := by
  simp [Module.valueType?, Module.op?]

namespace Represents

variable {context other : Context} {frame next : Frame} {heap : Array Buffer}

/-- What represents a context represents every context that binds no more and stores the same, in a
larger module and in a frame with the same values. -/
theorem transfer (represents : Represents nodes setting context frame heap)
    (bindings : ∀ {id : NodeId} {value : Value}, other.binding? id = some (.value value) →
      context.binding? id = some (.value value))
    (storage : other.storage = context.storage)
    (extends_ : context.module.Extends other.module) (entered : next ≠ [])
    (agrees : Frame.Agrees context.module frame next) :
    Represents nodes setting other next heap where
  entered := entered
  bound := by
    intro expr value member found
    obtain ⟨scalar, dtype, bears⟩ := represents.bound member (bindings found)
    refine ⟨scalar, dtype, { bears with found := ?_, typed := extends_.valueType? bears.typed }⟩
    rw [agrees value _ bears.typed]
    exact bears.found
  stored := by
    intro id value found
    rw [storage] at found
    obtain ⟨handle, buffer, backs⟩ := represents.stored found
    obtain ⟨type, typed⟩ := backs.typed
    refine ⟨handle, buffer,
      { backs with found := ?_, typed := ⟨type, extends_.valueType? typed⟩ }⟩
    rw [agrees value type typed]
    exact backs.found
  fits := represents.fits

/-- Fewer nodes are represented as well. -/
theorem narrow (represents : Represents nodes setting context frame heap) {fewer : Expr → Prop}
    (less : ∀ expr, fewer expr → nodes expr) : Represents fewer setting context frame heap where
  entered := represents.entered
  bound member found := represents.bound (less _ member) found
  stored := represents.stored
  fits member used held := represents.fits (less _ member) used held

theorem emit (represents : Represents nodes setting context frame heap) (event : Event) :
    Represents nodes setting (context.emit event) frame heap :=
  represents.transfer (fun found => found) rfl (.refl _ _) represents.entered (.refl _ _)

end Represents

/-! ## Sequences -/

namespace Computes

variable {before middle after context : Context} {meaning : Setting → Except Fault β}
  {good better : β → Frame → Prop}

/-- Nothing is built, for a meaning that every frame knows already. -/
theorem of_known (known : ∀ {setting frame heap}, Represents nodes setting context frame heap →
    ∃ b, meaning setting = .ok b ∧ good b frame) : Computes nodes context context meaning good where
  emits := .refl context
  storage := rfl
  kept found := found
  fresh found := .inl found
  runs := by
    refine ⟨[], fun block rest found _ listed => by simpa using listed, ?_⟩
    intro module run setting frame machine _ represents
    obtain ⟨b, value, holds⟩ := known represents
    rw [value]
    exact .of_ok ⟨frame, rfl, rfl, .refl _ _, represents, holds⟩

/-- An event before a computation changes nothing. -/
theorem of_emit {event : Event} (computes : Computes nodes (context.emit event) after meaning good) :
    Computes nodes context after meaning good where
  emits := (Context.Emits.emit context event).trans computes.emits
  storage := computes.storage
  kept := computes.kept
  fresh := computes.fresh
  runs := by
    obtain ⟨ops, lists, performs⟩ := computes.runs
    refine ⟨ops, lists, fun module run setting frame machine extends_ represents => ?_⟩
    exact performs module run setting frame machine extends_ (represents.emit event)

/-- What is computed may be known less well. -/
theorem mono (computes : Computes nodes before after meaning good)
    (implied : ∀ b frame, good b frame → better b frame) :
    Computes nodes before after meaning better where
  emits := computes.emits
  storage := computes.storage
  kept := computes.kept
  fresh := computes.fresh
  runs := by
    obtain ⟨ops, lists, performs⟩ := computes.runs
    refine ⟨ops, lists, fun module run setting frame machine grows represents => ?_⟩
    refine (performs module run setting frame machine grows represents).mono ?_
    rintro b step last - ⟨next, same, heap, agrees, after, holds⟩
    exact ⟨next, same, heap, agrees, after, implied b next holds⟩

theorem Lists.append {first second : List OpId} (start : Lists first before middle)
    (stack : middle.stack = before.stack) (end_ : Lists second middle after) :
    Lists (first ++ second) before after := by
  intro block rest found current listed
  have through := end_ block rest _ (stack.trans current) (start block rest found current listed)
  simpa using through

/-- One computation after the other; what is known of the first one stays known. -/
theorem seq_keep {first : Setting → Except Fault α} {goodFirst : α → Frame → Prop}
    (start : Computes nodes before middle first goodFirst)
    (end_ : Computes nodes middle after meaning good) (ends : before.AtEnds)
    (stable : ∀ {a frame next}, Frame.Agrees middle.module frame next → goodFirst a frame →
      goodFirst a next) :
    Computes nodes before after
      (fun setting => do return (← first setting, ← meaning setting))
      fun pair frame => goodFirst pair.1 frame ∧ good pair.2 frame where
  emits := start.emits.trans end_.emits
  storage := end_.storage.trans start.storage
  kept found := end_.kept (start.kept found)
  fresh found := by
    rcases end_.fresh found with old | new
    · exact start.fresh old
    · exact .inr new
  runs := by
    obtain ⟨ops, lists, performs⟩ := start.runs
    obtain ⟨more, later, continues⟩ := end_.runs
    refine ⟨ops ++ more, Lists.append lists start.emits.stack later, ?_⟩
    intro module run setting frame machine extends_ represents
    have middleExtends : middle.module.Extends module :=
      ((end_.emits.grows (start.emits.atEnds ends)).mono fun _ _ => trivial).trans extends_
        fun _ _ _ => trivial
    rw [Machine.advance_append]
    refine (performs module run setting frame machine middleExtends represents).bind ?_
    rintro a step last - ⟨next, rfl, heap, agrees, reached, known⟩
    refine (continues module run setting next last extends_ reached).map ?_
    rintro b step final - ⟨further, rfl, sameHeap, stillAgrees, finished, holds⟩
    have grown := (start.emits.grows ends).mono fun _ _ => trivial
    exact ⟨further, rfl, sameHeap.trans heap, agrees.trans grown stillAgrees, finished,
      stable stillAgrees known, holds⟩

/-- One computation after the other. -/
theorem seq {first : Setting → Except Fault α} {goodFirst : α → Frame → Prop}
    (start : Computes nodes before middle first goodFirst)
    (end_ : Computes nodes middle after meaning good) (ends : before.AtEnds) :
    Computes nodes before after
      (fun setting => do return (← first setting, ← meaning setting))
      fun pair frame => good pair.2 frame :=
  ((start.mono fun _ _ _ => trivial).seq_keep end_ ends fun _ known => known).mono
    fun _ _ both => both.2

end Computes

/-! ## Operations -/

/-- A module has the operation of a draft under a number. -/
structure Module.Carries (module : Module) (id : OpId) (op : Operation) (draft : OpDraft) :
    Prop where
  found : module.op? id = some op
  kind : op.kind = draft.kind
  operands : op.operands = draft.operands
  results : op.results = draft.results
  attributes : op.attributes = draft.attributes

theorem Module.Carries.of_extends {module wider : Module} {id : OpId} {op : Operation}
    {draft : OpDraft} (carries : module.Carries id op draft) (extends_ : module.Extends wider) :
    wider.Carries id op draft :=
  { carries with found := extends_.op? carries.found }

/-- The only result of an operation has the type of the draft. -/
theorem Module.Carries.valueType? {module : Module} {id : OpId} {op : Operation} {draft : OpDraft}
    {type : ValueType} (carries : module.Carries id op draft) (results : draft.results = [type]) :
    module.valueType? (.result id 0) = some type := by
  simp [Module.valueType?, carries.found, carries.results, results]

/-- What the creation of an operation does to a context. -/
structure Creates (draft : OpDraft) (id : OpId) (before after : Context) : Prop where
  emits : Context.Emits [] before after
  storage : after.storage = before.storage
  bindings : after.bindings = before.bindings
  new : id = ⟨before.module.ops.size⟩
  lists : Lists [id] before after
  carries : ∃ op, after.module.Carries id op draft ∧
    op.regions = before.module.freshBlocks draft.regions.length

/-- The results of an operation that was just created have no type before. -/
theorem Creates.untyped {draft : OpDraft} {id : OpId} {before after : Context}
    (creates : Creates draft id before after) (position : Nat) :
    before.module.valueType? (.result id position) = none := by
  rw [creates.new]
  exact before.module.valueType?_next position

theorem BuildM.create_creates (draft : OpDraft) (context : Context) :
    Ensures (create draft) context (fun id after => Creates draft id context after)
      (fun _ => True) := by
  have created : Ensures (create draft) context
      (fun id after => after.storage = context.storage ∧ after.bindings = context.bindings ∧
        id = ⟨context.module.ops.size⟩ ∧ Lists [id] context after ∧
        ∃ op, after.module.Carries id op draft ∧
          op.regions = context.module.freshBlocks draft.regions.length)
      (fun _ => True) := by
    refine ensures_create (fun point rest stack => ⟨rfl, rfl, rfl, ?_, ?_⟩) fun _ => trivial
    · intro block others found current listed
      rw [stack] at current
      cases current
      exact Module.block?_create_atEnd listed rfl
    · exact ⟨_, ⟨Module.op?_create_self, rfl, rfl, rfl, rfl⟩, rfl⟩
  refine ((create_emits draft context).and created).mono ?_ fun _ _ => trivial
  rintro id after ⟨emits, storage, bindings, new, lists, carries⟩
  exact ⟨emits, storage, bindings, new, lists, carries⟩

/-- An operation that defines its result as a proper meaning says. -/
theorem Machine.Defines.realizes {module : Module} {run : RunBlock} {id : OpId} {frame : Frame}
    {machine : Machine} {meaning : Except Fault Scalar} {dtype : DType}
    (defines : Defines module run id frame machine meaning) (proper : Proper dtype meaning) :
    Realizes (advance (runOp module run) [id] frame machine) meaning fun scalar step last =>
      step = .next (frame.define (.result id 0) (.scalar scalar)) ∧
        last.heap = machine.heap ∧ scalar.Fits dtype := by
  rw [advance_singleton]
  refine ⟨?_, defines.with_value.mono ?_⟩
  · rintro rfl
    exact proper rfl
  · rintro scalar step last ⟨rfl, same, heap⟩
    exact ⟨same, heap, proper⟩

/-- A value holds a scalar of a type. -/
def Holds (dtype : DType) (value : Value) (scalar : Scalar) (frame : Frame) : Prop :=
  scalar.Fits dtype ∧ frame.find? value = some (.scalar scalar)

namespace BuildM

variable {before middle : Context} {dtype : DType} {first : Setting → Except Fault α}
  {goodFirst : α → Frame → Prop} (result : Setting → α → Except Fault Scalar)

/-- An operation with a scalar result computes with what was computed before it. -/
theorem createValue_computes {kind : OpKind} {operands : List Value}
    {attributes : List (String × Attribute)}
    (start : Computes nodes before middle first goodFirst) (ends : before.AtEnds)
    (defines : ∀ {module : Module} (run : Machine.RunBlock) {id : OpId} {op : Operation}
      {setting : Setting} {frame : Frame} {machine : Machine} {a : α},
      module.Carries id op { kind, operands, results := [.scalar dtype], attributes } →
      middle.module.Extends module → Represents nodes setting middle frame machine.heap →
      first setting = .ok a → goodFirst a frame →
      Machine.Defines module run id frame machine (result setting a) ∧
        Proper dtype (result setting a)) :
    Ensures (createValue kind operands (.scalar dtype) attributes) middle
      (fun value after =>
        Computes nodes before after (fun setting => first setting >>= result setting)
          (Holds dtype value) ∧
        after.module.valueType? value = some (.scalar dtype))
      (fun _ => True) := by
  rw [createValue, ensures_bind]
  refine (create_creates _ middle).mono (fun id after creates => ?_) fun _ _ => trivial
  rw [ensures_pure]
  obtain ⟨op, carries, -⟩ := creates.carries
  have middleEnds := start.emits.atEnds ends
  have grown : middle.module.Extends after.module :=
    (creates.emits.grows middleEnds).mono fun _ _ => trivial
  refine ⟨?_, ?_⟩
  · refine
      { emits := start.emits.trans creates.emits
        storage := creates.storage.trans start.storage
        kept := fun found => ?_
        fresh := fun found => ?_
        runs := ?_ }
    · rw [Context.binding?, creates.bindings]
      exact start.kept found
    · rw [Context.binding?, creates.bindings] at found
      exact start.fresh found
    · obtain ⟨ops, lists, performs⟩ := start.runs
      refine ⟨ops ++ [id], Computes.Lists.append lists start.emits.stack creates.lists, ?_⟩
      intro module run setting frame machine extends_ represents
      have middleExtends := grown.trans extends_ fun _ _ _ => trivial
      rw [Machine.advance_append]
      refine (performs module run setting frame machine middleExtends represents).bind ?_
      rintro a step last value ⟨next, rfl, heap, agrees, reached, holds⟩
      obtain ⟨defined, proper⟩ :=
        defines run (carries.of_extends extends_) middleExtends reached value holds
      refine (defined.realizes proper).mono ?_
      rintro scalar step final - ⟨same, sameHeap, fits⟩
      have stays : Frame.Agrees middle.module next
          (next.define (.result id 0) (.scalar scalar)) := .define (creates.untyped 0)
      refine ⟨_, same, sameHeap.trans heap, ?_, ?_, fits, ?_⟩
      · exact agrees.trans ((start.emits.grows ends).mono fun _ _ => trivial) stays
      · rw [sameHeap]
        refine reached.transfer (fun found => ?_) creates.storage grown
          (Frame.define_ne_nil reached.entered) stays
        rwa [Context.binding?, creates.bindings] at found
      · exact Frame.find?_define_self reached.entered
  · exact carries.valueType? rfl

end BuildM

end AffineKernel
