import AffineKernel.Proofs.Semantics.Control
import AffineKernel.Proofs.Simulation.Expressions

/-!
# Blocks that are filled and closed

The block of a loop or conditional is filled while its insertion point is on the
stack; after that no operation goes into it any more. `Context.Leads` says which
modules building can lead to from a context: they have all that its module has,
and only the blocks of insertion points have received further operations. So a
block that was closed is in every such module as it was left
(`Context.Leads.block?`), and what it does when it is executed is known when it
is closed.

`Unfolds` is the creation of an operation with one block. A frame that represents
the context before it represents, after the block was entered, the context in
which the block is filled (`Represents.enter`); for a loop the loop variable is
bound there, to the argument of the block (`Represents.count`).
-/

set_option autoImplicit false

namespace AffineKernel

namespace Context

/-- Whether a block is that of an insertion point. -/
def Open (context : Context) (block : BlockId) : Prop :=
  ∃ point ∈ context.stack, point.block = block

/-- The blocks of the insertion points are there. -/
def Rooted (context : Context) : Prop :=
  ∀ block, context.Open block → block.index < context.module.blocks.size

/-- The block that the next operation goes to is there. -/
theorem Rooted.receives {context : Context} (rooted : context.Rooted) {block : BlockId}
    (receives : context.Receives block) : block.index < context.module.blocks.size := by
  obtain ⟨point, first, same⟩ := Option.map_eq_some_iff.mp receives
  exact rooted block ⟨point, List.mem_of_mem_head? first, same⟩

/-- A module that building can lead to: only open blocks receive further operations. -/
def Leads (context : Context) (module : Module) : Prop :=
  Module.Grows context.Open context.module module

namespace Leads

variable {context wider : Context} {module : Module}

theorem extends_ (leads : context.Leads module) : context.module.Extends module :=
  leads.mono fun _ _ => trivial

/-- With more open blocks, no less is possible. -/
theorem of_stack (leads : context.Leads module) (same : wider.module = context.module)
    (more : ∀ point ∈ context.stack, point ∈ wider.stack) : wider.Leads module := by
  unfold Leads
  rw [same]
  refine leads.mono fun block isOpen => ?_
  obtain ⟨point, listed, rfl⟩ := isOpen
  exact ⟨point, more point listed, rfl⟩

/-- A block that is closed stays as it is. -/
theorem block? (leads : context.Leads module) {block : BlockId} {found : Block}
    (closed : ¬ context.Open block) (listed : context.module.block? block = some found) :
    module.block? block = some found :=
  Module.Grows.block?_of_not leads closed listed

end Leads

namespace Emits

variable {pushed : List InsertionPoint} {before after : Context} {module : Module}

/-- What building can lead to later, it can lead to. -/
theorem leads (emits : Emits pushed before after) (ends : before.AtEnds)
    (later : after.Leads module) : before.Leads module := by
  have grown : Module.Grows before.Open before.module after.module := by
    refine (emits.grows ends).mono fun block receives => ?_
    obtain ⟨point, first, same⟩ := Option.map_eq_some_iff.mp receives
    exact ⟨point, List.mem_of_mem_head? first, same⟩
  refine grown.trans later fun block old isOpen => ?_
  obtain ⟨point, listed, rfl⟩ := isOpen
  rw [emits.stack, List.mem_append] at listed
  rcases listed with new | known
  · have := (emits.fresh point new).2
    omega
  · exact ⟨point, known, rfl⟩

theorem rooted (emits : Emits [] before after) (rooted : before.Rooted) : after.Rooted := by
  intro block isOpen
  rw [Open, emits.stack] at isOpen
  exact Nat.lt_of_lt_of_le (rooted block isOpen) emits.blocks_le

end Emits

end Context

/-! ## Operations with a block -/

/-- What the creation of an operation with one block does to a context. -/
structure Unfolds (draft : OpDraft) (args : List ValueType) (id : OpId) (body : BlockId)
    (before after : Context) : Prop where
  creates : Creates draft id before after
  new : body = ⟨before.module.blocks.size⟩
  listed : after.module.block? body = some ⟨args, [], some id⟩
  carries : ∃ op, after.module.Carries id op draft ∧ op.regions = [body]

/-- A loop, before it is created. -/
def loopDraft (lower upper : BuildM.LoopBound) (spec : BuildM.LoopSpec) : OpDraft where
  kind := .affineFor
  operands := lower.operand.toList ++ upper.operand.toList
  attributes := BuildM.loopAttributes lower upper spec
  regions := [[.scalar .index]]

namespace Unfolds

variable {draft : OpDraft} {args : List ValueType} {id : OpId} {body : BlockId}
  {before after : Context}

theorem emit (opens : Unfolds draft args id body before after) (event : Event) :
    Unfolds draft args id body before (after.emit event) where
  creates :=
    { emits := opens.creates.emits.trans (.emit after event)
      storage := opens.creates.storage
      bindings := opens.creates.bindings
      new := opens.creates.new
      lists := opens.creates.lists
      carries := opens.creates.carries }
  new := opens.new
  listed := opens.listed
  carries := opens.carries

/-- The block was not there before. -/
theorem size_le (opens : Unfolds draft args id body before after) :
    before.module.blocks.size ≤ body.index :=
  opens.new ▸ Nat.le_refl _

theorem notOpen (opens : Unfolds draft args id body before after) (rooted : before.Rooted) :
    ¬ before.Open body := by
  intro isOpen
  have small := rooted body isOpen
  have large := opens.size_le
  omega

end Unfolds

namespace BuildM

variable {context : Context}

theorem createRegion_opened (kind : OpKind) (operands : List Value)
    (attributes : List (String × Attribute)) (args : List ValueType)
    (there : ∀ {block}, context.Receives block → block.index < context.module.blocks.size) :
    Ensures (createRegion kind operands attributes args) context
      (fun made after => Unfolds { kind, operands, attributes, regions := [args] } args made.1 made.2
        context after)
      (fun _ => True) := by
  have lists : Ensures (create { kind, operands, attributes, regions := [args] }) context
      (fun id after => after.module.block? ⟨context.module.blocks.size⟩ = some ⟨args, [], some id⟩)
      (fun _ => True) := by
    refine ensures_create (fun point rest stack => ?_) fun _ => trivial
    have small : point.block.index < context.module.blocks.size :=
      there (by simp [Context.Receives, stack])
    exact Module.block?_create_region (Array.getElem?_eq_getElem small) rfl
  simp only [createRegion, ensures_bind, ensures_get, ensures_pure]
  refine ((create_creates _ context).and lists).mono ?_ fun _ _ => trivial
  rintro id after ⟨creates, listed⟩
  obtain ⟨op, carries, regions⟩ := creates.carries
  refine ⟨creates, rfl, listed, op, carries, ?_⟩
  rw [regions]
  simp [Module.freshBlocks]

theorem emitLoop_opened (lower upper : LoopBound) (spec : LoopSpec)
    (there : ∀ {block}, context.Receives block → block.index < context.module.blocks.size) :
    Ensures (emitLoop lower upper spec) context
      (fun header after => Unfolds (loopDraft lower upper spec) [.scalar .index] header.op header.body
        context after)
      (fun _ => True) := by
  simp only [emitLoop, ensures_bind, ensures_emit, ensures_pure]
  refine (createRegion_opened _ _ _ _ there).mono ?_ fun _ _ => trivial
  rintro ⟨id, body⟩ after opens
  exact opens.emit _

end BuildM

/-! ## Entering a block -/

/-- A setting in which a loop variable has a number. -/
def Setting.count (setting : Setting) (id : NodeId) (number : Int) : Setting :=
  { setting with env := setting.env.set id number }

/-- Entering a new block leaves all values alone. -/
theorem Frame.Agrees.enter {module : Module} {frame : Frame} {block : BlockId}
    (new : module.blocks.size ≤ block.index) (data : List Datum) :
    Frame.Agrees module frame (frame.enter block data) := by
  intro value type typed
  refine Frame.find?_enter_of_ne fun position same => ?_
  rw [same, Module.valueType?] at typed
  have absent : module.block? block = none := Array.getElem?_eq_none new
  rw [absent] at typed
  cases typed

namespace Represents

variable {nodes : Expr → Prop} {setting : Setting} {before after context : Context}
  {frame : Frame} {heap : Array Buffer}

/-- A block is entered where the operation that has it was represented before. -/
theorem enter {draft : OpDraft} {args : List ValueType} {id : OpId} {body : BlockId}
    (represents : Represents nodes setting before frame heap)
    (opens : Unfolds draft args id body before after) (ends : before.AtEnds) (data : List Datum) :
    Represents nodes setting after (frame.enter body data) heap := by
  refine represents.transfer (fun found => ?_) opens.creates.storage ?_ (by simp [Frame.enter]) ?_
  · rwa [Context.binding?, opens.creates.bindings] at found
  · exact (opens.creates.emits.grows ends).mono fun _ _ => trivial
  · exact Frame.Agrees.enter opens.size_le data

/-- A loop variable is bound to a value that holds its number. -/
theorem count {id : NodeId} {number : Int} {value : Value}
    (represents : Represents nodes setting context frame heap)
    (found : frame.find? value = some (.scalar (.int number)))
    (typed : context.module.valueType? value = some (.scalar .index))
    (fits : (Scalar.int number).Fits .index)
    (named : ∀ {expr : Expr}, nodes expr → expr.id = id → expr.loopName?.isSome = true)
    (stays : ∀ {expr : Expr} {scalar : Scalar}, nodes expr → expr.id ≠ id →
      context.isBound expr.id = true → setting.value expr = .ok scalar →
      (setting.count id number).value expr = .ok scalar) :
    Represents nodes (setting.count id number) (context.bind id (.value value)) frame heap where
  entered := represents.entered
  bound := by
    intro expr other member bound
    rw [Context.binding?_bind] at bound
    by_cases same : id = expr.id
    · rw [if_pos same] at bound
      cases bound
      have meaning : (setting.count id number).value expr = .ok (.int number) ∧
          expr.dtype? = some .index := by
        have name := named member same.symm
        cases expr <;> simp only [Expr.loopName?, Option.isSome_none, Bool.false_eq_true] at name
        all_goals
          refine ⟨?_, rfl⟩
          simp only [Expr.id] at same
          simp [Setting.value, Expr.value, Setting.count, Env.set, same]
      exact ⟨.int number, .index, meaning.2, fits, meaning.1, found, typed⟩
    · rw [if_neg same] at bound
      obtain ⟨scalar, dtype, bears⟩ := represents.bound member bound
      have known : context.isBound expr.id = true := by
        rw [Context.isBound, bound]
        rfl
      exact ⟨scalar, dtype,
        { bears with meaning := stays member (Ne.symm same) known bears.meaning }⟩
  stored := by
    intro other value stored
    obtain ⟨handle, buffer, backs⟩ := represents.stored stored
    exact ⟨handle, buffer, { backs with }⟩
  fits := represents.fits

end Represents

/-! ## Filling a block -/

/-- The end of a block does nothing. -/
theorem Machine.advance_yield {module : Module} {run : RunBlock} {id : OpId} {op : Operation}
    {frame : Frame} {machine : Machine} (carries : module.Carries id op { kind := .yield }) :
    advance (runOp module run) [id] frame machine = .ok (.next frame) machine := by
  have kind : op.kind = .yield := carries.kind
  rw [advance_singleton, runOp_idle carries.found (.inl kind)]
  rfl

theorem BuildM.emitYield_creates (context : Context) :
    Ensures emitYield context
      (fun _ after => ∃ id, Creates { kind := .yield } id context after) (fun _ => True) := by
  simp only [emitYield, ensures_bind, ensures_pure]
  exact (create_creates _ context).mono (fun id after creates => ⟨id, creates⟩) fun _ _ => trivial

/-- How an operation with a block comes about: it is created, its block is entered, filled with
operations and ended, and left. -/
structure Encloses (draft : OpDraft) (args : List ValueType) (id : OpId) (body : BlockId)
    (before created inside done last after : Context) : Prop where
  opens : Unfolds draft args id body before created
  insideModule : inside.module = created.module
  insideStack : inside.stack = .atEnd body :: before.stack
  fills : Context.Emits [] inside done
  yields : ∃ id, Creates { kind := .yield } id done last
  afterModule : after.module = last.module
  afterStack : after.stack = before.stack

namespace Encloses

variable {draft : OpDraft} {args : List ValueType} {id : OpId} {body : BlockId}
  {before created inside done last after : Context} {module : Module}
  (encloses : Encloses draft args id body before created inside done last after)
include encloses

theorem insideEnds (ends : before.AtEnds) : inside.AtEnds := by
  intro point listed
  rw [encloses.insideStack] at listed
  rcases List.mem_cons.mp listed with rfl | old
  · rfl
  · exact ends point old

/-- From the creation on, only the new block has received operations. -/
theorem grown (ends : before.AtEnds) :
    Module.Grows (· = body) created.module after.module := by
  obtain ⟨yield, yields⟩ := encloses.yields
  have filled := (encloses.fills.trans yields.emits).grows (encloses.insideEnds ends)
  rw [encloses.insideModule, ← encloses.afterModule] at filled
  refine filled.mono fun block receives => ?_
  rw [Context.Receives, encloses.insideStack] at receives
  exact (Option.some.inj receives).symm

/-- The block around the operation has received the operation, and nothing else. -/
theorem listsOp (ends : before.AtEnds) (rooted : before.Rooted) : Lists [id] before after := by
  intro block rest found current listed
  have old : block ≠ body := by
    rintro rfl
    exact encloses.opens.notOpen rooted ⟨.atEnd block, by simp [current], rfl⟩
  exact (encloses.grown ends).block?_of_not old
    (encloses.opens.creates.lists block rest found current listed)

theorem doneLeads (ends : before.AtEnds) (leads : after.Leads module) : done.Leads module := by
  obtain ⟨yield, yields⟩ := encloses.yields
  have stack : last.stack = .atEnd body :: before.stack := by
    rw [yields.emits.stack, encloses.fills.stack]
    exact encloses.insideStack
  have lastLeads : last.Leads module := by
    refine leads.of_stack encloses.afterModule.symm fun point listed => ?_
    rw [encloses.afterStack] at listed
    rw [stack]
    exact List.mem_cons_of_mem _ listed
  exact yields.emits.leads (encloses.fills.atEnds (encloses.insideEnds ends)) lastLeads

/-- The operation is in every module that building leads to. -/
theorem carries (ends : before.AtEnds) (leads : after.Leads module) :
    ∃ op, module.Carries id op draft ∧ op.regions = [body] := by
  obtain ⟨op, carries, regions⟩ := encloses.opens.carries
  have grown : created.module.Extends after.module :=
    (encloses.grown ends).mono fun _ _ => trivial
  exact ⟨op, (carries.of_extends grown).of_extends leads.extends_, regions⟩

/-- The block is in every module that building leads to as it was left: the operations that it was
filled with, and an end that does nothing. -/
theorem block? {ops : List OpId} (lists : Lists ops inside done) (rooted : before.Rooted)
    (leads : after.Leads module) :
    ∃ yield op, module.block? body = some ⟨args, ops ++ [yield], some id⟩ ∧
      module.Carries yield op { kind := .yield } := by
  obtain ⟨yield, yields⟩ := encloses.yields
  obtain ⟨op, carries, -⟩ := yields.carries
  have stack := encloses.insideStack
  have listed : inside.module.block? body = some ⟨args, [], some id⟩ := by
    rw [encloses.insideModule]
    exact encloses.opens.listed
  have filled := lists body before.stack _ stack listed
  have ended := yields.lists body before.stack _ (encloses.fills.stack.trans stack) filled
  rw [← encloses.afterModule] at ended
  have closed : ¬ after.Open body := by
    intro isOpen
    rw [Context.Open, encloses.afterStack] at isOpen
    exact encloses.opens.notOpen rooted isOpen
  refine ⟨yield, op, by simpa using leads.block? closed ended, ?_⟩
  rw [← encloses.afterModule] at carries
  exact carries.of_extends leads.extends_

end Encloses

end AffineKernel
