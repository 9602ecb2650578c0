import AffineKernel.Proofs.Build.Steps
import AffineKernel.Proofs.IR.Additions

/-!
# What building leaves alone

Building a node changes a context in a few ways only. The insertion points are
the same afterwards, and so are the mode and the number of open regions. No
identity becomes free again. The module grows, and among the blocks that were
there only the one of the current insertion point receives operations: it lists
them at this point, in the order in which they were created. A binding that is
there afterwards was there before or is logged among the nodes of the open
region.

`Context.Emits` is this relation, with the insertion points that an action has
put on top of the stack; `build_emits` says that it holds of building any node,
also of building that fails. The nest of a reduction is where it needs an
argument: every loop of the nest pushes an insertion point into a block that is
new, so the blocks that were there do not see it, and closing the region drops
the insertion points and the bindings that the nest left (`Emits.leave`).
-/

set_option autoImplicit false

namespace AffineKernel

namespace Context

/-- Whether a block is the one that the next operation goes to. -/
def Receives (context : Context) (block : BlockId) : Prop :=
  context.stack.head?.map InsertionPoint.block = some block

/-- Every insertion point is the end of a block. -/
def AtEnds (context : Context) : Prop := ∀ point ∈ context.stack, point.before = none

/-- A node that was just bound has its binding, and the others have theirs. -/
theorem binding?_bind (context : Context) (id other : NodeId) (binding : Binding) :
    (context.bind id binding).binding? other =
      if id = other then some binding else context.binding? other :=
  Table.find?_insert ..

/-- In an open region every binding that is new is logged. -/
def Logs (before after : Context) : Prop :=
  ∃ bound, after.regionNodes = bound ++ before.regionNodes ∧
    (0 < before.regions → ∀ id binding, after.binding? id = some binding →
      id ∈ bound ∨ before.binding? id = some binding)

/-- `after` comes from `before` by emitting operations, with `pushed` on top of the insertion
points. -/
structure Emits (pushed : List InsertionPoint) (before after : Context) : Prop where
  mode : after.mode = before.mode
  regions : after.regions = before.regions
  stack : after.stack = pushed ++ before.stack
  /-- What was pushed is the end of a new block. -/
  fresh : ∀ point ∈ pushed, point.before = none ∧ before.module.blocks.size ≤ point.block.index
  nodes : Logs before after
  nextId_le : before.nextId ≤ after.nextId
  blocks_le : before.module.blocks.size ≤ after.module.blocks.size
  grows : before.AtEnds → Module.Grows before.Receives before.module after.module
  fills : Module.Fills before.stack.head? before.module after.module

namespace Emits

variable {pushed more : List InsertionPoint} {before middle after : Context}

theorem refl (context : Context) : Emits [] context context where
  mode := rfl
  regions := rfl
  stack := rfl
  fresh := by simp
  nodes := ⟨[], rfl, fun _ _ _ found => .inr found⟩
  nextId_le := Nat.le_refl _
  blocks_le := Nat.le_refl _
  grows := fun _ => .refl _ _
  fills := .refl _ _

theorem atEnds (emits : Emits pushed before after) (ends : before.AtEnds) : after.AtEnds := by
  intro point member
  rw [emits.stack, List.mem_append] at member
  rcases member with new | old
  · exact (emits.fresh point new).1
  · exact ends point old

/-- The insertion point afterwards is the same as before, or its block is new. -/
theorem head?_of (emits : Emits pushed before after) {block : BlockId}
    (old : block.index < before.module.blocks.size) (receives : after.Receives block) :
    after.stack.head? = before.stack.head? := by
  rw [Receives, emits.stack] at receives
  rw [emits.stack]
  cases pushed with
  | nil => rfl
  | cons point rest =>
      have same : point.block = block := by simpa using receives
      have new := (emits.fresh point (by simp)).2
      rw [same] at new
      omega

/-- The block that receives operations afterwards is the same as before, or new. -/
theorem receives_of (emits : Emits pushed before after) {block : BlockId}
    (old : block.index < before.module.blocks.size) (receives : after.Receives block) :
    before.Receives block := by
  rw [Receives, ← emits.head?_of old receives]
  exact receives

theorem trans (first : Emits pushed before middle) (second : Emits more middle after) :
    Emits (more ++ pushed) before after where
  mode := second.mode.trans first.mode
  regions := second.regions.trans first.regions
  stack := by rw [second.stack, first.stack, List.append_assoc]
  fresh := by
    intro point member
    rcases List.mem_append.mp member with new | old
    · have := second.fresh point new
      exact ⟨this.1, Nat.le_trans first.blocks_le this.2⟩
    · exact first.fresh point old
  nodes := by
    obtain ⟨bound, logged, known⟩ := first.nodes
    obtain ⟨later, laterLogged, laterKnown⟩ := second.nodes
    refine ⟨later ++ bound, by rw [laterLogged, logged, List.append_assoc], ?_⟩
    intro inside id binding found
    rcases laterKnown (first.regions ▸ inside) id binding found with new | old
    · exact .inl (List.mem_append_left _ new)
    · rcases known inside id binding old with new | older
      · exact .inl (List.mem_append_right _ new)
      · exact .inr older
  nextId_le := Nat.le_trans first.nextId_le second.nextId_le
  blocks_le := Nat.le_trans first.blocks_le second.blocks_le
  grows ends := (first.grows ends).trans (second.grows (first.atEnds ends))
    fun _ old receives => first.receives_of old receives
  fills := first.fills.trans second.fills fun _ old receives => first.head?_of old receives

/-- Steps that put nothing on the stack form chains. -/
theorem chains : BuildM.Chains (Emits []) := ⟨refl, fun first second => first.trans second⟩

/-! ### Single steps -/

theorem emit (context : Context) (event : Event) : Emits [] context (context.emit event) where
  mode := rfl
  regions := rfl
  stack := rfl
  fresh := by simp
  nodes := ⟨[], rfl, fun _ _ _ found => .inr found⟩
  nextId_le := Nat.le_refl _
  blocks_le := Nat.le_refl _
  grows := fun _ => .refl _ _
  fills := .refl _ _

theorem bind (context : Context) (id : NodeId) (binding : Binding) :
    Emits [] context (context.bind id binding) where
  mode := rfl
  regions := rfl
  stack := rfl
  fresh := by simp
  nodes := by
    by_cases inside : 0 < context.regions
    · refine ⟨[id], by simp [Context.bind, inside], fun _ other found bound => ?_⟩
      rw [Context.binding?_bind] at bound
      split at bound
      · rename_i same
        exact .inl (by simp [same])
      · exact .inr bound
    · exact ⟨[], by simp [Context.bind, inside], fun positive => absurd positive inside⟩
  nextId_le := Nat.le_refl _
  blocks_le := Nat.le_refl _
  grows := fun _ => .refl _ _
  fills := .refl _ _

/-- Moving to the end of a new block. -/
theorem push (emits : Emits pushed before after) {block : BlockId}
    (new : before.module.blocks.size ≤ block.index) :
    Emits (.atEnd block :: pushed) before (after.savePoint (.atEnd block)) where
  mode := emits.mode
  regions := emits.regions
  stack := by rw [Context.savePoint, Context.emit, emits.stack]; rfl
  fresh := by
    intro point member
    rcases List.mem_cons.mp member with rfl | old
    · exact ⟨rfl, new⟩
    · exact emits.fresh point old
  nodes := emits.nodes
  nextId_le := emits.nextId_le
  blocks_le := emits.blocks_le
  grows := emits.grows
  fills := emits.fills

/-- Leaving the block entered last. -/
theorem pop {point : InsertionPoint} (emits : Emits (point :: pushed) before after) :
    Emits pushed before { after with stack := pushed ++ before.stack } where
  mode := emits.mode
  regions := emits.regions
  stack := rfl
  fresh := fun point member => emits.fresh point (List.mem_cons_of_mem _ member)
  nodes := emits.nodes
  nextId_le := emits.nextId_le
  blocks_le := emits.blocks_le
  grows := emits.grows
  fills := emits.fills

/-! ### Closing a region -/

/-- What is bound after a region was closed was bound before it was opened. -/
theorem binding?_leave (logs : Logs before.enterRegion after) {id : NodeId}
    {binding : Binding} (found : (after.leaveRegion before.mark).binding? id = some binding) :
    before.binding? id = some binding := by
  obtain ⟨bound, logged, known⟩ := logs
  have logged : after.regionNodes = bound ++ before.regionNodes := logged
  simp only [Context.binding?, leaveRegion, mark, logged, Table.find?_eraseAll] at found
  simp only [List.length_append, Nat.add_sub_cancel_right, List.take_left'] at found
  split at found
  · exact absurd found (by simp)
  · rename_i absent
    rcases known (Nat.succ_pos _) id binding found with new | old
    · exact absurd new absent
    · exact old

theorem regionNodes_leave (logs : Logs before.enterRegion after) :
    (after.leaveRegion before.mark).regionNodes = before.regionNodes := by
  obtain ⟨bound, logged, -⟩ := logs
  have logged : after.regionNodes = bound ++ before.regionNodes := logged
  simp [leaveRegion, mark, logged]

theorem stack_leave (stack : after.stack = pushed ++ before.stack) :
    (after.leaveRegion before.mark).stack = before.stack := by
  simp [leaveRegion, truncate, mark, depth, stack]

/-- Leaving a region in which only new blocks were entered. -/
theorem leave (emits : Emits pushed before.enterRegion after) :
    Emits [] before (after.leaveRegion before.mark) where
  mode := emits.mode
  regions := by
    have regions : after.regions = before.regions + 1 := emits.regions
    simp [leaveRegion, regions]
  stack := stack_leave emits.stack
  fresh := by simp
  nodes := ⟨[], regionNodes_leave emits.nodes, fun _ _ _ found =>
    .inr (binding?_leave emits.nodes found)⟩
  nextId_le := emits.nextId_le
  blocks_le := emits.blocks_le
  grows := emits.grows
  fills := emits.fills

/-- Leaving the region of an operation that a step before it has created. -/
theorem leaveBlock {origin : Context} {block : BlockId} (opened : Emits [] origin before)
    (new : origin.module.blocks.size ≤ block.index)
    (inside : Emits [] (before.enterRegion.savePoint (.atEnd block)) after) :
    Emits [] origin (after.leaveRegion before.mark) where
  mode := inside.mode.trans opened.mode
  regions := by
    have regions : after.regions = before.regions + 1 := inside.regions
    simp [leaveRegion, regions, opened.regions]
  stack := by
    have stack : after.stack = [.atEnd block] ++ before.stack := inside.stack
    rw [stack_leave stack, opened.stack]
  fresh := by simp
  nodes := by
    have logs : Logs before.enterRegion after := inside.nodes
    obtain ⟨bound, logged, known⟩ := opened.nodes
    refine ⟨bound, (regionNodes_leave logs).trans logged, ?_⟩
    intro positive id binding found
    exact known positive id binding (binding?_leave logs found)
  nextId_le := Nat.le_trans opened.nextId_le inside.nextId_le
  blocks_le := Nat.le_trans opened.blocks_le inside.blocks_le
  grows ends := by
    have entered : (before.enterRegion.savePoint (.atEnd block)).AtEnds := by
      intro point member
      rcases List.mem_cons.mp member with rfl | old
      · rfl
      · exact opened.atEnds ends point old
    refine (opened.grows ends).trans (inside.grows entered) fun other old receives => ?_
    have same : block = other := by
      simpa [Receives, savePoint, Context.emit, InsertionPoint.atEnd] using receives
    subst same
    omega
  fills := opened.fills.trans inside.fills fun other old receives => by
    have same : block = other := by
      simpa [savePoint, Context.emit, InsertionPoint.atEnd] using receives
    subst same
    omega

end Emits

end Context

namespace BuildM

open Context

variable {α : Type}

/-! ## Single operations -/

/-- What a creation does to a context: it needs an insertion point, and numbers the operation. -/
theorem ensures_create {draft : OpDraft} {context : Context} {done : OpId → Context → Prop}
    {failed : Context → Prop}
    (created : ∀ point rest, context.stack = point :: rest →
      done ⟨context.module.ops.size⟩
        ({ context with module := (context.module.create draft point).2 }.emit
          (.createOperation ⟨context.module.ops.size⟩ draft.kind point.block)))
    (empty : context.stack = [] → failed context) : Ensures (create draft) context done failed := by
  simp only [create, currentPoint, ensures_bind, ensures_get]
  split
  · rename_i point rest stack
    simp only [ensures_pure, ensures_set, ensures_emit]
    exact created point rest stack
  · rename_i stack
    exact empty stack

theorem create_emits (draft : OpDraft) : Keeps (Emits []) (create draft) := by
  intro context
  refine ensures_create (fun point rest stack => ?_) fun _ => .refl context
  have created : Emits [] context
      { context with module := (context.module.create draft point).2 } :=
    { mode := rfl
      regions := rfl
      stack := rfl
      fresh := by simp
      nodes := ⟨[], rfl, fun _ _ _ found => .inr found⟩
      nextId_le := Nat.le_refl _
      blocks_le := by simp only [Module.blocks_size_create]; omega
      grows := fun ends => by
        have last : point.before = none := ends point (by simp [stack])
        refine (Module.grows_create last).mono fun block same => ?_
        simp [Receives, stack, same]
      fills := by
        rw [stack]
        exact .create _ _ _ }
  exact created.trans (.emit _ _)

theorem createValue_emits (kind : OpKind) (operands : List Value) (type : ValueType)
    (attributes : List (String × Attribute)) :
    Keeps (Emits []) (createValue kind operands type attributes) :=
  Emits.chains.bind (create_emits _) fun _ => Emits.chains.pure _

theorem emitYield_emits : Keeps (Emits []) emitYield :=
  Emits.chains.bind (create_emits _) fun _ => Emits.chains.pure _

theorem emits_steps : Steps (Emits []) (Emits []) where
  toCourses := Emits.chains.courses
  log := Emits.emit
  bindNode := Emits.bind
  create _ _ := create_emits _

/-! ## Loops and regions -/

/-- A region whose action only emits is a step that only emits: what the action left on the stack
and in the bindings is gone. -/
theorem inRegion_emits {action : BuildM α} {context : Context}
    (emits : Ensures action context.enterRegion
      (fun _ after => ∃ pushed, Emits pushed context.enterRegion after)
      (fun after => ∃ pushed, Emits pushed context.enterRegion after)) :
    Ensures (inRegion action) context (fun _ after => Emits [] context after)
      (Emits [] context) := by
  rw [ensures_inRegion]
  exact emits.mono (fun _ _ ⟨_, emits⟩ => emits.leave) (fun _ ⟨_, emits⟩ => emits.leave)

/-- A step of an action whose earlier steps have put `pushed` on the stack. -/
theorem emits_bind {β : Type} {action : BuildM β} {next : β → BuildM α} {base context : Context}
    {pushed : List InsertionPoint} {done : α → Context → Prop}
    (step : Keeps (Emits []) action) (emits : Emits pushed base context)
    (later : ∀ b after, Emits pushed base after →
      Ensures (next b) after done (fun last => ∃ left, Emits left base last)) :
    Ensures (action >>= next) context done (fun last => ∃ left, Emits left base last) := by
  rw [ensures_bind]
  exact (step context).mono (fun b after stepped => later b after (emits.trans stepped))
    fun after stepped => ⟨_, emits.trans stepped⟩

/-- The block of a region is new. -/
theorem createRegion_emits (kind : OpKind) (operands : List Value)
    (attributes : List (String × Attribute)) (args : List ValueType) (context : Context) :
    Ensures (createRegion kind operands attributes args) context
      (fun made after => Emits [] context after ∧ made.2 = ⟨context.module.blocks.size⟩)
      (Emits [] context) := by
  simp only [createRegion, ensures_bind, ensures_get]
  exact (create_emits _ context).mono (fun _ _ emits => ⟨emits, rfl⟩) fun _ emits => emits

/-- The body of a loop is a new block. -/
theorem emitLoop_emits (lower upper : LoopBound) (spec : LoopSpec) (context : Context) :
    Ensures (emitLoop lower upper spec) context
      (fun header after => Emits [] context after ∧ header.body = ⟨context.module.blocks.size⟩)
      (Emits [] context) := by
  simp only [emitLoop, ensures_bind, ensures_emit, ensures_pure]
  refine (createRegion_emits _ _ _ _ context).mono (fun made after emits => ?_)
    fun _ emits => emits
  exact ⟨emits.1.trans (.emit _ _), emits.2⟩

/-- Closing as many loops as were opened leaves none of their insertion points. -/
theorem closeLoops_emits {base : Context} :
    ∀ (pushed : List InsertionPoint) (context : Context), Emits pushed base context →
      Ensures (closeLoops pushed.length) context (fun _ after => Emits [] base after)
        (fun after => ∃ left, Emits left base after)
  | [], context, emits => emits
  | point :: rest, context, emits => by
      simp only [List.length_cons, closeLoops, restorePoint, ensures_bind, ensures_get]
      refine (emitYield_emits context).mono (fun _ middle yielded => ?_)
        fun after yielded => ⟨_, emits.trans yielded⟩
      have inside : Emits (point :: rest) base middle := emits.trans yielded
      rw [inside.stack]
      simp only [List.cons_append, ensures_bind, ensures_set, ensures_emit, ensures_pure]
      exact closeLoops_emits rest _ (inside.pop.trans (.emit _ _))

/-! ## Reductions -/

/-- Opening the loops of axes puts one insertion point on the stack for each axis. -/
theorem openAxes_emits_of : ∀ (axes : List Expr) {base context : Context}
    {pushed : List InsertionPoint}, (∀ axis ∈ axes, AxisLeads (Emits []) (Emits []) axis) →
    Emits pushed base context →
    Ensures (openAxes axes) context
      (fun _ after => ∃ more, more.length = axes.length ∧ Emits (more ++ pushed) base after)
      (fun after => ∃ left, Emits left base after)
  | [], base, context, pushed, _, emits => ⟨[], rfl, emits⟩
  | .axis id name lower upper :: rest, base, context, pushed, leads, emits => by
      have bounds : AxisLeads (Emits []) (Emits []) (.axis id name lower upper) :=
        leads _ List.mem_cons_self
      rw [openAxes]
      refine emits_bind bounds.1 emits fun low middle emits => ?_
      refine emits_bind bounds.2 emits fun high middle emits => ?_
      rw [ensures_bind]
      refine (emitLoop_emits _ _ _ middle).mono ?_ fun after failed => ⟨_, emits.trans failed⟩
      rintro header after ⟨looped, body⟩
      simp only [ensures_bind, ensures_bindNode, ensures_savePoint]
      have new : base.module.blocks.size ≤ header.body.index := by
        rw [body]
        exact emits.blocks_le
      have entered :=
        ((emits.trans looped).trans (.bind after id (.value header.counter))).push new
      have others := fun axis later => leads axis (List.mem_cons_of_mem _ later)
      refine (openAxes_emits_of rest others entered).mono ?_ fun _ left => left
      rintro - last ⟨more, depth, opened⟩
      refine ⟨more ++ [.atEnd header.body], by simp [depth], ?_⟩
      simpa using opened
  | .constant .. :: _, _, _, _, _, emits | .loopVar .. :: _, _, _, _, _, emits
  | .unary .. :: _, _, _, _, _, emits | .binary .. :: _, _, _, _, _, emits
  | .compare .. :: _, _, _, _, _, emits | .cast .. :: _, _, _, _, _, emits
  | .load .. :: _, _, _, _, _, emits | .store .. :: _, _, _, _, _, emits
  | .select .. :: _, _, _, _, _, emits | .call .. :: _, _, _, _, _, emits
  | .getBit .. :: _, _, _, _, _, emits | .reduce .. :: _, _, _, _, _, emits => ⟨_, emits⟩

/-- A nest leaves at most the insertion points of its loops. -/
theorem reduceNest_emits (acc : Accumulator) (kind : ReduceKind) (dtype : DType) {body : Expr}
    {axes : List Expr} {context : Context} (built : Keeps (Emits []) (build body))
    (opened : Ensures (openAxes axes) context
      (fun _ after => ∃ more, more.length = axes.length ∧ Emits (more ++ []) context after)
      (fun after => ∃ left, Emits left context after)) :
    Ensures (reduceNest acc kind dtype body axes) context
      (fun _ after => ∃ left, Emits left context after)
      (fun after => ∃ left, Emits left context after) := by
  rw [reduceNest_eq, ensures_bind]
  refine opened.mono ?_ fun after failed => failed
  rintro - nest ⟨pushed, depth, entered⟩
  rw [List.append_nil] at entered
  refine emits_bind (emits_steps.accumulatorStep acc kind dtype built) entered fun _ nest entered => ?_
  rw [← depth]
  exact (closeLoops_emits pushed nest entered).mono (fun _ _ closed => ⟨[], closed⟩)
    fun _ left => left

/-! ## Nodes -/

/-- Building only emits. -/
theorem emits_building : Building (Emits []) (Emits []) where
  toSteps := emits_steps
  nest acc kind dtype _ axes built leads _ :=
    inRegion_emits (reduceNest_emits acc kind dtype built (openAxes_emits_of axes leads (.refl _)))

theorem build_emits (expr : Expr) : Keeps (Emits []) (build expr) := emits_building.build expr

theorem buildBound_emits (bound : Bound) : Keeps (Emits []) (buildBound bound) :=
  emits_building.buildBound bound

theorem openAxes_emits (axes : List Expr) {base context : Context} {pushed : List InsertionPoint}
    (emits : Emits pushed base context) :
    Ensures (openAxes axes) context
      (fun _ after => ∃ more, more.length = axes.length ∧ Emits (more ++ pushed) base after)
      (fun after => ∃ left, Emits left base after) :=
  openAxes_emits_of axes (emits_building.axesLead axes) emits

theorem buildValue_emits (expr : Expr) : Keeps (Emits []) (buildValue expr) :=
  emits_building.buildValue expr

end BuildM

end AffineKernel
