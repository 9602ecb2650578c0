import AffineKernel.Proofs.Build.Access
import AffineKernel.Proofs.Build.Frame
import AffineKernel.Proofs.IR.Dominance
import AffineKernel.Proofs.IR.Preorder

/-!
# Building keeps dominance

A context is *lawful* when its module is dominated and everything that is bound
is visible at the current insertion point. Then whatever is built next uses
visible values only, and what it yields is visible in turn: `build_lawful` is
this statement for every node, whether building it fails or not.

The invariant has two parts. `Context.Placed` is about the module and the
insertion points, which stay inside of each other at ends of open blocks;
`Context.Lawful` adds the bindings. Inside the nest of a
reduction the second part fails on the way out, after the innermost loop is
closed and before its bindings are undone. Only operations without operands are
created there, which need the first part alone, and closing the region
brings the second part back (`Lawful.leave`).
-/

set_option autoImplicit false

namespace AffineKernel

namespace Context

/-- The next operation may use a value. -/
def Sees (context : Context) (value : Value) : Prop :=
  ∀ block, context.Receives block → context.module.VisibleIn block value

/-- A value that may be an operand of the next operation. -/
def Usable (context : Context) (value : Value) : Prop :=
  context.module.IsBuffer value ∨ context.Sees value

/-- The module is dominated and in order, insertion points are ends of its open blocks, listed
from the inside to the outside, and storage is buffers. -/
structure Placed (context : Context) : Prop where
  ends : context.AtEnds
  blocks : ∀ point ∈ context.stack, ∃ found, context.module.block? point.block = some found
  opened : ∀ point ∈ context.stack, context.module.Open point.block
  outward : context.stack.Pairwise fun inner outer => outer.block.index ≤ inner.block.index
  dominated : context.module.Dominated
  chronological : context.module.Chronological
  preordered : context.module.Preordered
  storage : ∀ id value, context.storage.find? id = some value → context.module.IsBuffer value

/-- Besides, everything that is bound is visible. -/
structure Lawful (context : Context) : Prop extends context.Placed where
  bindings : ∀ id value, context.binding? id = some (.value value) → context.Sees value

/-- A block that a step has made, and that can be filled next: it is open and comes after the blocks
being filled, and everything that was seen before is visible in it. -/
structure Fillable (block : BlockId) (before after : Context) : Prop where
  listed : ∃ found, after.module.block? block = some found
  opened : after.module.Open block
  newest : ∀ point ∈ after.stack, point.block.index ≤ block.index
  inherits : ∀ value, before.Sees value → after.module.VisibleIn block value

/-- A step that emits operations and keeps contexts lawful. -/
structure Sustains (before after : Context) : Prop where
  emits : Emits [] before after
  lawful : after.Lawful

variable {before middle after context : Context} {value : Value}

theorem Sustains.trans (first : Sustains before middle) (second : Sustains middle after) :
    Sustains before after :=
  ⟨first.emits.trans second.emits, second.lawful⟩

theorem Lawful.sustains (lawful : context.Lawful) : Sustains context context := ⟨.refl _, lawful⟩

/-- The current block is the innermost one. -/
theorem Placed.inside_current (placed : context.Placed) {point other : InsertionPoint}
    {rest : List InsertionPoint} (stack : context.stack = point :: rest)
    (member : other ∈ context.stack) : other.block.index ≤ point.block.index := by
  have outward := placed.outward
  rw [stack] at outward member
  rcases List.mem_cons.mp member with rfl | outer
  · exact Nat.le_refl _
  · exact (List.pairwise_cons.mp outward).1 other outer

/-- Going back to insertion points around the current one. -/
theorem Placed.outer (placed : before.Placed) {pushed : List InsertionPoint}
    (module : after.module = before.module) (storage : after.storage = before.storage)
    (stack : before.stack = pushed ++ after.stack) : after.Placed := by
  have kept : ∀ point ∈ after.stack, point ∈ before.stack := fun point member =>
    stack ▸ List.mem_append_right pushed member
  exact
    { ends := fun point member => placed.ends point (kept point member)
      blocks := fun point member => module ▸ placed.blocks point (kept point member)
      opened := fun point member => module ▸ placed.opened point (kept point member)
      outward := (List.pairwise_append.mp (stack ▸ placed.outward)).2.1
      dominated := module ▸ placed.dominated
      chronological := module ▸ placed.chronological
      preordered := module ▸ placed.preordered
      storage := fun id value held => module ▸ placed.storage id value (storage ▸ held) }

/-! ## Emitting -/

theorem Sees.of_grows {receives : BlockId → Prop}
    (grows : Module.Grows receives before.module after.module)
    (stack : after.stack = before.stack) (sees : before.Sees value) : after.Sees value := by
  intro block current
  have same : before.Receives block := by rwa [Receives, stack] at current
  exact (sees block same).of_grows grows

theorem Sees.of_emits (emits : Emits [] before after) (ends : before.AtEnds)
    (sees : before.Sees value) : after.Sees value :=
  sees.of_grows (emits.grows ends) emits.stack

theorem Usable.of_emits (emits : Emits [] before after) (ends : before.AtEnds)
    (usable : before.Usable value) : after.Usable value := by
  rcases usable with buffer | sees
  · exact .inl (buffer.of_grows (emits.grows ends))
  · exact .inr (sees.of_emits emits ends)

theorem Sustains.sees (sustains : Sustains before after) (lawful : before.Lawful)
    (sees : before.Sees value) : after.Sees value :=
  sees.of_emits sustains.emits lawful.ends

theorem Sustains.usable (sustains : Sustains before after) (lawful : before.Lawful)
    (usable : before.Usable value) : after.Usable value :=
  usable.of_emits sustains.emits lawful.ends

theorem Lawful.emit (lawful : context.Lawful) (event : Event) : Sustains context (context.emit event) :=
  ⟨.emit _ _, { lawful with bindings := lawful.bindings }⟩

/-- Binding a node to something visible. -/
theorem Lawful.bind (lawful : context.Lawful) (id : NodeId) {binding : Binding}
    (visible : ∀ value, binding = .value value → context.Sees value) :
    Sustains context (context.bind id binding) := by
  refine ⟨.bind _ _ _, { lawful with bindings := fun other value found => ?_ }⟩
  rw [binding?_bind] at found
  split at found
  · exact visible value (Option.some.inj found)
  · exact lawful.bindings other value found

theorem Lawful.bindValue (lawful : context.Lawful) (id : NodeId) (sees : context.Sees value) :
    Sustains context (context.bind id (.value value)) :=
  lawful.bind id fun _ same => Binding.value.inj same ▸ sees

/-! ## Regions -/

theorem sees_savePoint {block : BlockId} (visible : context.module.VisibleIn block value) :
    (context.savePoint (.atEnd block)).Sees value := by
  intro entered receives
  have inside : block = entered := by
    simpa [Receives, savePoint, Context.emit, InsertionPoint.atEnd] using receives
  subst inside
  exact visible

/-- Moving to the end of a block that sees everything bound. -/
theorem Lawful.enter (lawful : before.Lawful) (placed : after.Placed)
    (same : after.bindings = before.bindings) {block : BlockId}
    (fillable : Fillable block before after) : (after.savePoint (.atEnd block)).Lawful where
  ends := by
    intro point member
    rcases List.mem_cons.mp member with rfl | old
    · rfl
    · exact placed.ends point old
  blocks := by
    intro point member
    rcases List.mem_cons.mp member with rfl | old
    · exact fillable.listed
    · exact placed.blocks point old
  opened := by
    intro point member
    rcases List.mem_cons.mp member with rfl | old
    · exact fillable.opened
    · exact placed.opened point old
  outward := List.pairwise_cons.mpr ⟨fillable.newest, placed.outward⟩
  dominated := placed.dominated
  chronological := placed.chronological
  preordered := placed.preordered
  storage := placed.storage
  bindings := by
    intro id value found
    refine sees_savePoint (fillable.inherits value (lawful.bindings id value ?_))
    rw [binding?, ← same]
    exact found

theorem Lawful.enterRegion (lawful : context.Lawful) : context.enterRegion.Lawful :=
  { lawful with bindings := lawful.bindings }

/-- Leaving a region: what is still bound was bound, and visible, when it was entered. -/
theorem Lawful.returning {pushed : List InsertionPoint} {receives : BlockId → Prop}
    (lawful : before.Lawful) (placed : after.Placed) (logs : Logs before.enterRegion after)
    (inner : after.stack = pushed ++ before.stack)
    (grown : Module.Grows receives before.module after.module) :
    (after.leaveRegion before.mark).Lawful := by
  have stack : (after.leaveRegion before.mark).stack = before.stack := Emits.stack_leave inner
  exact
    { toPlaced := placed.outer rfl rfl (stack.symm ▸ inner)
      bindings := fun id value found =>
        (lawful.bindings id value (Emits.binding?_leave logs found)).of_grows grown stack }

theorem Lawful.leave {pushed : List InsertionPoint} (lawful : before.Lawful)
    (emits : Emits pushed before.enterRegion after) (placed : after.Placed) :
    Sustains before (after.leaveRegion before.mark) where
  emits := emits.leave
  lawful := lawful.returning placed emits.nodes emits.stack (emits.grows lawful.ends)

/-- A step that created an operation with a region at `block`, which can be entered. -/
structure Opens (block : BlockId) (before after : Context) : Prop where
  sustains : Sustains before after
  new : before.module.blocks.size ≤ block.index
  listed : ∃ found, after.module.block? block = some found
  entered : (after.enterRegion.savePoint (.atEnd block)).Lawful

/-- Leaving the region of an operation that a step before it has created. -/
theorem Opens.leave {origin : Context} {block : BlockId} (opens : Opens block origin before)
    (inside : Sustains (before.enterRegion.savePoint (.atEnd block)) after) :
    Sustains origin (after.leaveRegion before.mark) := by
  have inner : after.stack = [.atEnd block] ++ before.stack := inside.emits.stack
  exact
    { emits := opens.sustains.emits.leaveBlock opens.new inside.emits
      lawful := opens.sustains.lawful.returning inside.lawful.toPlaced inside.emits.nodes inner
        (inside.emits.grows opens.entered.ends) }

end Context

namespace BuildM

open Context

variable {α : Type} {context : Context}

/-! ## Creation -/

theorem create_placed {draft : OpDraft} (placed : context.Placed)
    (operands : ∀ value ∈ draft.operands, context.Usable value) :
    Ensures (create draft) context (fun _ after => after.Placed) Placed := by
  refine ensures_create (fun point rest stack => ?_) fun _ => placed
  have current : point ∈ context.stack := by simp [stack]
  have last := placed.ends point current
  obtain ⟨found, listed⟩ := placed.blocks point current
  have grown : Module.Grows (· = point.block) context.module
      (context.module.create draft point).2 := Module.grows_create last
  refine
    { ends := placed.ends
      blocks := fun other member => ?_
      opened := fun other member => ?_
      outward := placed.outward
      dominated := ?_
      chronological := placed.chronological.create listed last
      preordered := placed.preordered.create placed.chronological listed (placed.opened point current)
      storage := fun id value held => (placed.storage id value held).of_grows grown }
  · obtain ⟨old, oldListed⟩ := placed.blocks other member
    obtain ⟨added, listed', -⟩ := grown.block? oldListed
    exact ⟨_, listed'⟩
  · obtain ⟨old, oldListed⟩ := placed.blocks other member
    exact (placed.opened other member).create placed.chronological listed oldListed
      (placed.inside_current stack member)
  · refine placed.dominated.create listed last fun value operand => ?_
    rcases operands value operand with buffer | sees
    · exact .inl buffer
    · exact .inr (sees point.block (by simp [Receives, stack]))

/-- Creating an operation over usable values yields visible results. -/
theorem create_lawful {draft : OpDraft} (lawful : context.Lawful)
    (operands : ∀ value ∈ draft.operands, context.Usable value) :
    Ensures (create draft) context
      (fun id after => Sustains context after ∧ after.bindings = context.bindings ∧
        (∀ position, after.Sees (.result id position)) ∧
        after.module.valueType? (.result id 0) = draft.results[0]?)
      (Sustains context) := by
  have framed := create_emits draft context
  have placed := create_placed lawful.toPlaced operands
  have created : Ensures (create draft) context
      (fun id after => after.bindings = context.bindings ∧
        (∀ position, after.Sees (.result id position)) ∧
        after.module.valueType? (.result id 0) = draft.results[0]?)
      (fun after => after = context) := by
    refine ensures_create (fun point rest stack => ⟨rfl, fun position block receives => ?_, ?_⟩)
      fun _ => rfl
    · have current : point ∈ context.stack := by simp [stack]
      obtain ⟨found, listed⟩ := lawful.blocks point current
      have same : point.block = block := by simpa [Receives, Context.emit, stack] using receives
      subst same
      exact Module.visibleIn_result listed (lawful.ends point current) position
    · simp only [Module.valueType?, Context.emit, Module.op?_create_self, Option.bind_eq_bind,
        Option.bind_some]
  refine ((framed.and placed).and created).mono ?_ ?_
  · rintro id after ⟨⟨emits, placed⟩, bindings, results, type⟩
    refine ⟨⟨emits, { placed with bindings := fun node value found => ?_ }⟩, bindings, results, type⟩
    rw [binding?, bindings] at found
    exact (lawful.bindings node value found).of_emits emits lawful.ends
  · rintro after ⟨-, rfl⟩
    exact lawful.sustains

theorem createValue_lawful {kind : OpKind} {operands : List Value} {type : ValueType}
    {attributes : List (String × Attribute)} (lawful : context.Lawful)
    (usable : ∀ value ∈ operands, context.Usable value) :
    Ensures (createValue kind operands type attributes) context
      (fun value after => Sustains context after ∧ after.Sees value ∧
        after.module.valueType? value = some type)
      (Sustains context) := by
  simp only [createValue, ensures_bind, ensures_pure]
  refine (create_lawful lawful usable).mono ?_ fun _ failed => failed
  rintro id after ⟨sustains, -, sees, typed⟩
  exact ⟨sustains, sees 0, typed⟩

/-- The block of a new region can be filled, and it has the arguments that were asked for. -/
theorem createRegion_lawful {kind : OpKind} {operands : List Value}
    {attributes : List (String × Attribute)} {args : List ValueType} (lawful : context.Lawful)
    (usable : ∀ value ∈ operands, context.Usable value) :
    Ensures (createRegion kind operands attributes args) context
      (fun made after => Sustains context after ∧ after.bindings = context.bindings ∧
        Fillable made.2 context after ∧
        ∃ found, after.module.block? made.2 = some found ∧ found.args = args)
      (Sustains context) := by
  simp only [createRegion, ensures_bind, ensures_get]
  have created : Ensures (create { kind, operands, attributes, regions := [args] }) context
      (fun _ after => Fillable ⟨context.module.blocks.size⟩ context after ∧
        ∃ found, after.module.block? ⟨context.module.blocks.size⟩ = some found ∧
          found.args = args)
      (fun _ => True) := by
    refine ensures_create (fun point rest stack => ?_) fun _ => trivial
    have current : point ∈ context.stack := by simp [stack]
    obtain ⟨found, listed⟩ := lawful.blocks point current
    refine ⟨⟨⟨_, Module.block?_create_region listed rfl⟩, ?_, fun other member => ?_,
      fun value sees => ?_⟩, _, Module.block?_create_region listed rfl, rfl⟩
    · exact Module.open_region lawful.chronological listed rfl (lawful.opened point current)
    · obtain ⟨old, known⟩ := lawful.blocks other member
      exact Nat.le_of_lt (Module.index_lt_of_block? known)
    · have visible := sees point.block (by simp [Receives, stack])
      exact Module.visibleIn_region listed (lawful.ends point current) rfl visible
  refine ((create_lawful lawful usable).and created).mono ?_ fun _ failed => failed.1
  rintro id after ⟨⟨sustains, bindings, -, -⟩, region⟩
  exact ⟨sustains, bindings, region⟩

/-! ## Single operations -/

theorem emitCast_lawful {value : Value} {source target : DType} (lawful : context.Lawful)
    (sees : context.Sees value) :
    Ensures (emitCast value source target) context
      (fun value after => Sustains context after ∧ after.Sees value) (Sustains context) := by
  rw [emitCast]
  split
  · exact ⟨lawful.sustains, sees⟩
  · exact (createValue_lawful lawful (by simp [Usable, sees])).mono
      (fun _ _ done => ⟨done.1, done.2.1⟩) fun _ failed => failed

theorem emitBinary_lawful {kind : BinaryKind} {dtype : DType} {lhs rhs : Value}
    (lawful : context.Lawful) (left : context.Sees lhs) (right : context.Sees rhs) :
    Ensures (emitBinary kind dtype lhs rhs) context
      (fun value after => Sustains context after ∧ after.Sees value) (Sustains context) := by
  rw [emitBinary, ensures_bind]
  refine ensures_liftExcept (fun op _ => ?_) lawful.sustains
  rw [ensures_bind]
  refine (createValue_lawful lawful (by simp [Usable, left, right])).mono ?_ fun _ failed => failed
  rintro result after ⟨sustains, sees, -⟩
  split
  · exact (createValue_lawful sustains.lawful (by simp [Usable, sees])).mono
      (fun _ _ done => ⟨sustains.trans done.1, done.2.1⟩) fun _ failed => sustains.trans failed
  · exact ⟨sustains, sees⟩

theorem storageOf_lawful {tensor : Tensor} (lawful : context.Lawful) :
    Ensures (storageOf tensor) context
      (fun value after => after = context ∧ context.module.IsBuffer value)
      (fun after => after = context) := by
  simp only [storageOf, ensures_bind, ensures_get]
  split
  · rename_i value held
    exact ⟨rfl, lawful.storage _ _ held⟩
  · exact rfl

/-- What loop variables are bound to is visible. -/
theorem loopValues_lawful (lawful : context.Lawful) {refs : List LoopRef} {values : List Value}
    (bound : refs.map context.loopValue? = values.map some) :
    ∀ value ∈ values, context.Sees value := by
  intro value listed
  have known : some value ∈ refs.map context.loopValue? :=
    bound ▸ List.mem_map_of_mem listed
  obtain ⟨ref, -, found⟩ := List.mem_map.mp known
  exact lawful.bindings ref.id value (binding?_of_loopValue? found)

theorem affineAccess_lawful {indices : List Expr} (lawful : context.Lawful) :
    Ensures (affineAccess indices) context
      (fun access after => Sustains context after ∧ ∀ value ∈ access.2, after.Sees value)
      (Sustains context) := by
  refine (affineAccess_reads indices context).mono ?_ ?_
  · rintro ⟨map, operands⟩ after ⟨refs, -, rfl, bound⟩
    exact ⟨lawful.emit _, loopValues_lawful (lawful.emit _).lawful bound⟩
  · rintro after (rfl | ⟨event, rfl⟩)
    · exact lawful.sustains
    · exact lawful.emit event

/-- The operands of a load or store. -/
theorem access_operands {memref : Value} {operands : List Value}
    (buffer : context.module.IsBuffer memref) (sees : ∀ value ∈ operands, context.Sees value) :
    ∀ value ∈ memref :: operands, context.Usable value := by
  intro value member
  rcases List.mem_cons.mp member with rfl | later
  · exact .inl buffer
  · exact .inr (sees value later)

theorem emitLoad_lawful {tensor : Tensor} {indices : List Expr} (lawful : context.Lawful) :
    Ensures (emitLoad tensor indices) context
      (fun value after => Sustains context after ∧ after.Sees value) (Sustains context) := by
  simp only [emitLoad, ensures_bind]
  refine (storageOf_lawful lawful).mono ?_ fun _ same => same ▸ lawful.sustains
  rintro memref after ⟨rfl, buffer⟩
  refine (affineAccess_lawful lawful).mono ?_ fun _ failed => failed
  rintro access middle ⟨sustains, sees⟩
  have buffer := buffer.of_grows (sustains.emits.grows lawful.ends)
  exact (createValue_lawful sustains.lawful (access_operands buffer sees)).mono
    (fun _ _ done => ⟨sustains.trans done.1, done.2.1⟩) fun _ failed => sustains.trans failed

theorem emitStore_lawful {value : Value} {tensor : Tensor} {indices : List Expr}
    (lawful : context.Lawful) (sees : context.Sees value) :
    Ensures (emitStore value tensor indices) context (fun _ after => Sustains context after)
      (Sustains context) := by
  simp only [emitStore, ensures_bind]
  refine (storageOf_lawful lawful).mono ?_ fun _ same => same ▸ lawful.sustains
  rintro memref after ⟨rfl, buffer⟩
  refine (affineAccess_lawful lawful).mono ?_ fun _ failed => failed
  rintro access middle ⟨sustains, others⟩
  have buffer := buffer.of_grows (sustains.emits.grows lawful.ends)
  refine (create_lawful sustains.lawful ?_).mono (fun _ _ done => sustains.trans done.1)
    fun _ failed => sustains.trans failed
  intro operand member
  rcases List.mem_cons.mp member with rfl | rest
  · exact .inr (sustains.sees lawful sees)
  · exact access_operands buffer others operand rest

theorem emitCall_lawful {dtype : Option DType} {callee : String} {args : List Value}
    (lawful : context.Lawful) (usable : ∀ value ∈ args, context.Usable value) :
    Ensures (emitCall dtype callee args) context
      (fun binding after => Sustains context after ∧
        ∀ value, binding = .value value → after.Sees value)
      (Sustains context) := by
  simp only [emitCall, ensures_bind, ensures_pure]
  refine (create_lawful lawful usable).mono ?_ fun _ failed => failed
  rintro id after ⟨sustains, -, sees, -⟩
  refine ⟨sustains, fun value same => ?_⟩
  split at same
  · cases same
    exact sees 0
  · cases same

/-! ## Steps of an action -/

/-- A step from a context that is sustained already. -/
theorem sustained {action : BuildM α} {base : Context} {good : α → Context → Prop}
    (sustains : Sustains base context)
    (ensures : Ensures action context (fun a after => Sustains context after ∧ good a after)
      (Sustains context)) :
    Ensures action context (fun a after => Sustains base after ∧ good a after) (Sustains base) :=
  ensures.mono (fun _ _ done => ⟨sustains.trans done.1, done.2⟩) fun _ failed =>
    sustains.trans failed

/-- An operation over usable values as the last step. -/
theorem createValue_sustained {kind : OpKind} {operands : List Value} {type : ValueType}
    {attributes : List (String × Attribute)} {base : Context} (sustains : Sustains base context)
    (usable : ∀ value ∈ operands, context.Usable value) :
    Ensures (createValue kind operands type attributes) context
      (fun value after => Sustains base after ∧ after.Sees value) (Sustains base) :=
  (createValue_lawful sustains.lawful usable).mono
    (fun _ _ done => ⟨sustains.trans done.1, done.2.1⟩) fun _ failed => sustains.trans failed

theorem needValue_lawful {name : String} {binding : Binding}
    (sees : ∀ value, binding = .value value → context.Sees value) :
    Ensures (needValue name binding) context
      (fun value after => after = context ∧ context.Sees value) (fun after => after = context) := by
  cases binding with
  | value value => exact ⟨rfl, sees value rfl⟩
  | op id => exact rfl

/-- Building an operand as a step: its value is seen from then on. -/
theorem operand_bind {expr : Expr} {name : String} {next : Value → BuildM α} {base : Context}
    {done : α → Context → Prop}
    (built : Ensures (build expr) context
      (fun binding after => Sustains context after ∧
        ∀ value, binding = .value value → after.Sees value)
      (Sustains context))
    (sustains : Sustains base context)
    (later : ∀ value after, Sustains context after → Sustains base after → after.Sees value →
      Ensures (next value) after done (Sustains base)) :
    Ensures (build expr >>= fun binding => needValue name binding >>= next) context done
      (Sustains base) := by
  rw [ensures_bind]
  refine built.mono ?_ fun _ failed => sustains.trans failed
  rintro binding after ⟨step, sees⟩
  rw [ensures_bind]
  refine (needValue_lawful sees).mono ?_ fun _ same => same ▸ sustains.trans step
  rintro value after ⟨rfl, seesValue⟩
  exact later value _ step (sustains.trans step) seesValue

theorem once_lawful {id : NodeId} {name : String} {action : BuildM Binding}
    (lawful : context.Lawful)
    (acts : ∀ {start : Context}, start.Lawful →
      Ensures action start
        (fun binding after => Sustains start after ∧
          ∀ value, binding = .value value → after.Sees value)
        (Sustains start)) :
    Ensures (once id name action) context
      (fun binding after => Sustains context after ∧
        ∀ value, binding = .value value → after.Sees value)
      (Sustains context) := by
  simp only [once, ensures_bind, ensures_get]
  split
  · rename_i binding found
    exact ⟨lawful.sustains, fun value same => lawful.bindings id value (same ▸ found)⟩
  · have logged := lawful.emit (.materialize id name)
    simp only [ensures_bind, ensures_emit, ensures_bindNode, ensures_pure]
    refine (acts logged.lawful).mono ?_ fun _ failed => logged.trans failed
    rintro binding after ⟨step, sees⟩
    have bound := step.lawful.bind id sees
    exact ⟨(logged.trans step).trans bound, fun value same =>
      bound.sees step.lawful (sees value same)⟩

theorem onceValue_lawful {id : NodeId} {name : String} {action : BuildM Value}
    (lawful : context.Lawful)
    (acts : ∀ {start : Context}, start.Lawful →
      Ensures action start (fun value after => Sustains start after ∧ after.Sees value)
        (Sustains start)) :
    Ensures (onceValue id name action) context
      (fun binding after => Sustains context after ∧
        ∀ value, binding = .value value → after.Sees value)
      (Sustains context) := by
  refine once_lawful lawful fun started => ?_
  rw [ensures_map]
  refine (acts started).mono (fun value after done => ⟨done.1, fun other same => ?_⟩)
    fun _ failed => failed
  cases same
  exact done.2

/-! ## Loops and regions -/

/-- A loop over visible bounds, and its body. -/
theorem emitLoop_lawful {lower upper : LoopBound} {spec : LoopSpec} (lawful : context.Lawful)
    (low : ∀ value, lower.operand = some value → context.Sees value)
    (high : ∀ value, upper.operand = some value → context.Sees value) :
    Ensures (emitLoop lower upper spec) context
      (fun header after => Sustains context after ∧ after.bindings = context.bindings ∧
        Fillable header.body context after)
      (Sustains context) := by
  simp only [emitLoop, ensures_bind, ensures_emit, ensures_pure]
  refine (createRegion_lawful lawful fun value member => ?_).mono ?_ fun _ failed => failed
  · rcases List.mem_append.mp member with left | right
    · exact .inr (low value (by simpa using left))
    · exact .inr (high value (by simpa using right))
  · rintro ⟨op, body⟩ after ⟨sustains, bindings, fillable, -⟩
    exact ⟨sustains.trans (sustains.lawful.emit _), bindings, { fillable with }⟩

/-- An action inside a region, from a lawful context to one with a dominated module. -/
theorem inRegion_lawful {action : BuildM α} (lawful : context.Lawful)
    (emits : Ensures action context.enterRegion
      (fun _ after => ∃ left, Emits left context.enterRegion after)
      (fun after => ∃ left, Emits left context.enterRegion after))
    (placed : Ensures action context.enterRegion (fun _ after => after.Placed) Placed) :
    Ensures (inRegion action) context (fun _ after => Sustains context after)
      (Sustains context) := by
  rw [ensures_inRegion]
  refine (emits.and placed).mono ?_ ?_
  · rintro _ after ⟨⟨left, emits⟩, placed⟩
    exact lawful.leave emits placed
  · rintro after ⟨⟨left, emits⟩, placed⟩
    exact lawful.leave emits placed

/-- The ends of loop bodies have no operands. -/
theorem closeLoops_placed : ∀ (count : Nat) {context : Context}, context.Placed →
    Ensures (closeLoops count) context (fun _ after => after.Placed) Placed
  | 0, _, placed => placed
  | count + 1, context, placed => by
      simp only [closeLoops, emitYield, restorePoint, ensures_bind, ensures_get, ensures_pure]
      refine (create_placed placed (by simp)).mono (fun _ after yielded => ?_) fun _ failed => failed
      split
      · exact yielded
      · rename_i point rest stack
        simp only [ensures_bind, ensures_set, ensures_emit, ensures_pure]
        have current : after.stack = [point] ++ rest := stack
        exact closeLoops_placed count (yielded.outer rfl rfl current)

/-! ## Reductions -/

theorem openAccumulator_lawful {kind : ReduceKind} {dtype : DType} (lawful : context.Lawful) :
    Ensures (openAccumulator kind dtype) context
      (fun acc after => Sustains context after ∧ after.Usable acc.buffer ∧ after.Usable acc.zero)
      (Sustains context) := by
  simp only [openAccumulator, emitConstant, Accumulator.store, ensures_bind, ensures_pure]
  refine (createValue_lawful lawful (by simp)).mono ?_ fun _ failed => failed
  rintro buffer first ⟨allocated, -, typed⟩
  have held : first.Usable buffer := .inl ⟨_, _, typed⟩
  refine (createValue_lawful allocated.lawful (by simp)).mono ?_
    fun _ failed => allocated.trans failed
  rintro zero second ⟨counted, seesZero, -⟩
  have held := counted.usable allocated.lawful held
  have addressed : second.Usable zero := .inr seesZero
  have sustains := allocated.trans counted
  refine (createValue_lawful sustains.lawful (by simp)).mono ?_
    fun _ failed => sustains.trans failed
  rintro start third ⟨started, seesStart, -⟩
  have held := started.usable counted.lawful held
  have addressed := started.usable counted.lawful addressed
  have sustains := sustains.trans started
  refine (create_lawful sustains.lawful ?_).mono ?_ fun _ failed => sustains.trans failed
  · have usable : third.Usable start := .inr seesStart
    simp [held, addressed, usable]
  · rintro id last ⟨stored, -, -, -⟩
    exact ⟨sustains.trans stored, stored.usable started.lawful held,
      stored.usable started.lawful addressed⟩

/-- Inside the nest the accumulator can still be used; after it the module is still dominated. -/
theorem reduceNest_placed {acc : Accumulator} (kind : ReduceKind) (dtype : DType) {body : Expr}
    {axes : List Expr} (held : context.Usable acc.buffer) (addressed : context.Usable acc.zero)
    (opened : Ensures (openAxes axes) context
      (fun _ after => after.Lawful ∧ ∀ value, context.Usable value → after.Usable value) Placed)
    (built : ∀ {start : Context}, start.Lawful →
      Ensures (build body) start
        (fun binding after => Sustains start after ∧
          ∀ value, binding = .value value → after.Sees value)
        (Sustains start)) :
    Ensures (reduceNest acc kind dtype body axes) context (fun _ after => after.Placed)
      Placed := by
  rw [reduceNest, ensures_bind]
  refine opened.mono ?_ fun _ failed => failed
  rintro - nest ⟨lawful, inherits⟩
  have held := inherits _ held
  have addressed := inherits _ addressed
  rw [ensures_bind]
  refine ensures_valueType (fun actual _ => ?_) lawful.toPlaced
  dsimp only
  split
  · exact lawful.toPlaced
  rw [ensures_bind]
  refine (built lawful).mono ?_ fun _ failed => failed.lawful.toPlaced
  rintro binding first ⟨computed, sees⟩
  have held := computed.usable lawful held
  have addressed := computed.usable lawful addressed
  rw [ensures_bind]
  refine (needValue_lawful sees).mono ?_ fun _ same => same ▸ computed.lawful.toPlaced
  rintro data first ⟨rfl, seesData⟩
  rw [ensures_bind]
  refine (createValue_lawful computed.lawful (by simp [held, addressed])).mono ?_
    fun _ failed => failed.lawful.toPlaced
  rintro current second ⟨loaded, seesCurrent, -⟩
  have held := loaded.usable computed.lawful held
  have addressed := loaded.usable computed.lawful addressed
  have seesData := loaded.sees computed.lawful seesData
  rw [ensures_bind]
  refine (createValue_lawful loaded.lawful (by simp [Usable, seesData, seesCurrent])).mono ?_
    fun _ failed => failed.lawful.toPlaced
  rintro combined third ⟨merged, seesCombined, -⟩
  have held := merged.usable loaded.lawful held
  have addressed := merged.usable loaded.lawful addressed
  have usable : third.Usable combined := .inr seesCombined
  simp only [Accumulator.store, ensures_bind, ensures_pure]
  refine (create_lawful merged.lawful (by simp [held, addressed, usable])).mono ?_
    fun _ failed => failed.lawful.toPlaced
  rintro id last ⟨stored, -⟩
  exact closeLoops_placed _ stored.lawful.toPlaced

/-! ## Nodes -/

mutual

/-- Building a node keeps contexts lawful, and its value can be used afterwards. -/
theorem build_lawful : ∀ (expr : Expr) {context : Context}, context.Lawful →
    Ensures (build expr) context
      (fun binding after => Sustains context after ∧
        ∀ value, binding = .value value → after.Sees value)
      (Sustains context)
  | .constant id dtype value, _, lawful => by
      rw [build]
      exact onceValue_lawful lawful fun started =>
        createValue_sustained started.sustains (by simp)
  | .loopVar id name, _, lawful | .axis id name _ _, _, lawful => by
      rw [build]
      exact onceValue_lawful lawful fun started => started.sustains
  | .unary id dtype kind operand, _, lawful => by
      rw [build]
      refine onceValue_lawful lawful fun started => ?_
      refine operand_bind (build_lawful operand started) started.sustains
        fun x after _ sustains sees => ?_
      exact createValue_sustained sustains (by simp [Usable, sees])
  | .binary id dtype kind lhs rhs, _, lawful => by
      rw [build]
      refine onceValue_lawful lawful fun started => ?_
      refine operand_bind (build_lawful lhs started) started.sustains
        fun a middle _ sustains left => ?_
      refine operand_bind (build_lawful rhs sustains.lawful) sustains
        fun b after step through right => ?_
      exact sustained through
        (emitBinary_lawful through.lawful (step.sees sustains.lawful left) right)
  | .compare id kind lhs rhs, _, lawful => by
      rw [build]
      refine onceValue_lawful lawful fun started => ?_
      rw [ensures_bind]
      refine ensures_valueType (fun dtype _ => ?_) started.sustains
      refine operand_bind (build_lawful lhs started) started.sustains
        fun a middle _ sustains left => ?_
      refine operand_bind (build_lawful rhs sustains.lawful) sustains
        fun b after step through right => ?_
      have left := step.sees sustains.lawful left
      exact createValue_sustained through (by simp [Usable, left, right])
  | .cast id dtype source, _, lawful => by
      rw [build]
      refine onceValue_lawful lawful fun started => ?_
      rw [ensures_bind]
      refine ensures_valueType (fun sourceType _ => ?_) started.sustains
      refine operand_bind (build_lawful source started) started.sustains
        fun x after _ sustains sees => ?_
      exact sustained sustains (emitCast_lawful sustains.lawful sees)
  | .load id tensor indices, _, lawful => by
      rw [build]
      exact onceValue_lawful lawful emitLoad_lawful
  | .store id tensor value indices, _, lawful => by
      rw [build]
      refine once_lawful lawful fun started => ?_
      refine operand_bind (build_lawful value started) started.sustains
        fun stored after _ sustains sees => ?_
      simp only [ensures_bind, ensures_pure]
      exact (emitStore_lawful sustains.lawful sees).mono
        (fun _ _ step => ⟨sustains.trans step, by simp⟩) fun _ failed => sustains.trans failed
  | .select id dtype condition thenValue elseValue, _, lawful => by
      rw [build]
      refine onceValue_lawful lawful fun started => ?_
      refine operand_bind (build_lawful condition started) started.sustains
        fun c first _ sustains sees => ?_
      refine operand_bind (build_lawful thenValue sustains.lawful) sustains
        fun t second step through seesThen => ?_
      have sees := step.sees sustains.lawful sees
      refine operand_bind (build_lawful elseValue through.lawful) through
        fun e third step whole seesElse => ?_
      have sees := step.sees through.lawful sees
      have seesThen := step.sees through.lawful seesThen
      exact createValue_sustained whole (by simp [Usable, sees, seesThen, seesElse])
  | .call id dtype callee args, _, lawful => by
      rw [build]
      refine once_lawful lawful fun started => ?_
      rw [ensures_bind]
      refine (buildArgs_lawful args started).mono ?_ fun _ failed => failed
      rintro operands after ⟨sustains, usable⟩
      exact sustained sustains (emitCall_lawful sustains.lawful usable)
  | .getBit id value bit, _, lawful => by
      rw [build]
      refine onceValue_lawful lawful fun started => ?_
      refine operand_bind (build_lawful value started) started.sustains
        fun v middle _ sustains left => ?_
      refine operand_bind (build_lawful bit sustains.lawful) sustains
        fun b after step through right => ?_
      have left := step.sees sustains.lawful left
      exact createValue_sustained through (by simp [Usable, left, right])
  | .reduce id dtype kind body axes, _, lawful => by
      rw [build_reduce]
      refine onceValue_lawful lawful fun started => ?_
      have logged := started.emit (.synthesizeReduction kind dtype axes.length)
      simp only [ensures_bind, ensures_emit]
      refine (openAccumulator_lawful logged.lawful).mono ?_ fun _ failed => logged.trans failed
      rintro acc opened ⟨step, held, addressed⟩
      have sustains := logged.trans step
      have inside := sustains.lawful.enterRegion
      have emits := reduceNest_emits acc kind dtype (build_emits body)
        (openAxes_emits axes (.refl opened.enterRegion))
      have placed : Ensures (reduceNest acc kind dtype body axes) opened.enterRegion
          (fun _ after => after.Placed) Placed :=
        reduceNest_placed kind dtype held addressed (openAxes_lawful axes inside)
          (build_lawful body)
      refine (inRegion_lawful sustains.lawful emits placed).mono ?_
        fun _ failed => sustains.trans failed
      rintro - closed nest
      have held := nest.usable sustains.lawful held
      have addressed := nest.usable sustains.lawful addressed
      exact createValue_sustained (sustains.trans nest) (by simp [held, addressed])

theorem buildBound_lawful : ∀ (bound : Bound) {context : Context}, context.Lawful →
    Ensures (buildBound bound) context
      (fun built after => Sustains context after ∧
        ∀ value, built.operand = some value → after.Sees value)
      (Sustains context)
  | .const value, _, lawful => ⟨lawful.sustains, by simp⟩
  | .expr value, _, lawful => by
      rw [buildBound, ensures_bind]
      refine ensures_valueType (fun dtype _ => ?_) lawful.sustains
      dsimp only
      split
      · exact lawful.sustains
      refine operand_bind (build_lawful value lawful) lawful.sustains
        fun built middle _ sustains sees => ?_
      simp only [ensures_bind, ensures_pure]
      refine (emitCast_lawful sustains.lawful sees).mono ?_ fun _ failed => sustains.trans failed
      rintro index after ⟨step, seesIndex⟩
      refine ⟨sustains.trans step, fun other same => ?_⟩
      obtain rfl := Option.some.inj same
      exact seesIndex

/-- The innermost body of a nest sees whatever could be used before the nest. -/
theorem openAxes_lawful : ∀ (axes : List Expr) {context : Context}, context.Lawful →
    Ensures (openAxes axes) context
      (fun _ after => after.Lawful ∧ ∀ value, context.Usable value → after.Usable value) Placed
  | [], _, lawful => ⟨lawful, fun _ usable => usable⟩
  | .axis id name lower upper :: rest, context, lawful => by
      rw [openAxes, ensures_bind]
      refine (buildBound_lawful lower lawful).mono ?_ fun _ failed => failed.lawful.toPlaced
      rintro low first ⟨sustains, seesLow⟩
      rw [ensures_bind]
      refine (buildBound_lawful upper sustains.lawful).mono ?_
        fun _ failed => failed.lawful.toPlaced
      rintro high second ⟨step, seesHigh⟩
      have seesLow := fun value same => step.sees sustains.lawful (seesLow value same)
      have sustains := sustains.trans step
      rw [ensures_bind]
      refine (emitLoop_lawful sustains.lawful seesLow seesHigh).mono ?_
        fun _ failed => failed.lawful.toPlaced
      rintro header third ⟨looped, same, fillable⟩
      simp only [ensures_bind, ensures_bindNode, ensures_savePoint]
      have entered := sustains.lawful.enter looped.lawful.toPlaced same fillable
      obtain ⟨found, listed⟩ := fillable.listed
      have counter : (third.savePoint (.atEnd header.body)).Sees header.counter :=
        sees_savePoint ⟨found, listed, .inl ⟨0, rfl⟩⟩
      have bound := entered.bindValue id counter
      refine (openAxes_lawful rest bound.lawful).mono ?_ fun _ failed => failed
      rintro - last ⟨lawfulLast, keeps⟩
      refine ⟨lawfulLast, fun value usable => keeps value (bound.usable entered ?_)⟩
      rcases sustains.usable lawful usable with buffer | sees
      · exact .inl (buffer.of_grows (looped.emits.grows sustains.lawful.ends))
      · exact .inr (sees_savePoint (fillable.inherits value sees))
  | .constant .. :: _, _, lawful | .loopVar .. :: _, _, lawful
  | .unary .. :: _, _, lawful | .binary .. :: _, _, lawful
  | .compare .. :: _, _, lawful | .cast .. :: _, _, lawful
  | .load .. :: _, _, lawful | .store .. :: _, _, lawful
  | .select .. :: _, _, lawful | .call .. :: _, _, lawful
  | .getBit .. :: _, _, lawful | .reduce .. :: _, _, lawful => lawful.toPlaced

theorem buildArgs_lawful : ∀ (args : List CallArg) {context : Context}, context.Lawful →
    Ensures (buildArgs args) context
      (fun values after => Sustains context after ∧ ∀ value ∈ values, after.Usable value)
      (Sustains context)
  | [], _, lawful => ⟨lawful.sustains, by simp⟩
  | .expr value :: rest, _, lawful => by
      rw [buildArgs]
      refine operand_bind (build_lawful value lawful) lawful.sustains
        fun first middle _ sustains sees => ?_
      simp only [ensures_bind, ensures_pure]
      refine (buildArgs_lawful rest sustains.lawful).mono ?_ fun _ failed => sustains.trans failed
      rintro others after ⟨step, usable⟩
      refine ⟨sustains.trans step, fun operand member => ?_⟩
      rcases List.mem_cons.mp member with rfl | later
      · exact .inr (step.sees sustains.lawful sees)
      · exact usable operand later
  | .tensor tensor :: rest, _, lawful => by
      rw [buildArgs, ensures_bind]
      refine (storageOf_lawful lawful).mono ?_ fun _ same => same ▸ lawful.sustains
      rintro memref context ⟨rfl, buffer⟩
      simp only [ensures_bind, ensures_pure]
      refine (buildArgs_lawful rest lawful).mono ?_ fun _ failed => failed
      rintro others after ⟨step, usable⟩
      refine ⟨step, fun operand member => ?_⟩
      rcases List.mem_cons.mp member with rfl | later
      · exact .inl (buffer.of_grows (step.emits.grows lawful.ends))
      · exact usable operand later

end

end BuildM

end AffineKernel
