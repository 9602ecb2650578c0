import AffineKernel.Build.Control
import AffineKernel.Proofs.Build.Constructors
import AffineKernel.Proofs.Build.Frame
import AffineKernel.Proofs.IR.Terminators

/-!
# Building ends its regions

Building any node keeps a context orderly, whether it fails or not
(`BuildM.build_tidies`): no block has a terminator but at its end, and a block
with an insertion point has none. The nest of a reduction ends its loops from
the inside out, and gives up the insertion point of a loop right after it has
ended it.

If building a node succeeds, then every loop that it has created is sealed
(`BuildM.build_settles`), that is, its block has a yield. In the nest of a
reduction the loops that are still open are those of the insertion points that
the nest has put on the stack (`Context.Awaits`). Opening an axis adds a loop
and an insertion point, and closing it takes both away.
-/

set_option autoImplicit false

namespace AffineKernel

namespace Context

variable {pushed : List InsertionPoint} {base before middle after context : Context}

/-- Terminators are last in their blocks, and blocks with an insertion point have none. -/
def Orderly (context : Context) : Prop := context.module.Orderly context.stack

/-- An orderly context stays orderly. -/
def Tidies (before after : Context) : Prop := before.Orderly → after.Orderly

theorem Tidies.chains : BuildM.Chains Tidies where
  refl _ orderly := orderly
  trans first second orderly := second (first orderly)

/-- Every insertion point is the end of a block of the module. -/
def Standing (context : Context) : Prop :=
  ∀ point ∈ context.stack, point.before = none ∧
    ∃ found, context.module.block? point.block = some found

theorem Orderly.standing (orderly : context.Orderly) : context.Standing := fun point member =>
  ⟨orderly.ends point member, orderly.blocks point member⟩

theorem Standing.atEnds (standing : context.Standing) : context.AtEnds := fun point member =>
  (standing point member).1

theorem Emits.standing (emits : Emits [] before after) (standing : before.Standing) :
    after.Standing := by
  intro point member
  have old : point ∈ before.stack := by
    have stack : after.stack = before.stack := emits.stack
    exact stack ▸ member
  obtain ⟨atEnd, found, listed⟩ := standing point old
  obtain ⟨added, grown, -⟩ := (emits.grows standing.atEnds).block? listed
  exact ⟨atEnd, _, grown⟩

/-- Every operation that was created since some time, and whose region has to be ended, is sealed,
or it is a loop whose body has one of the insertion points put on the stack since. -/
structure Awaits (pushed : List InsertionPoint) (base context : Context) : Prop where
  emits : Emits pushed base context
  standing : context.Standing
  loops : ∀ {id : OpId} {op : Operation}, base.module.size ≤ id.index →
    context.module.op? id = some op → op.kind.terminator? ≠ none →
    context.module.Sealed id ∨
      op.kind = .affineFor ∧ ∃ point ∈ pushed, op.regions = [point.block]

/-- No operation that was created since is left without its end. -/
def Settles (before after : Context) : Prop := before.Standing → Awaits [] before after

namespace Awaits

/-- What was created while nothing was left open is sealed. -/
theorem closed (awaits : Awaits [] base context) {id : OpId} {op : Operation}
    (new : base.module.size ≤ id.index) (there : context.module.op? id = some op)
    (owns : op.kind.terminator? ≠ none) : context.module.Sealed id := by
  rcases awaits.loops new there owns with closed | ⟨-, point, absent, -⟩
  · exact closed
  · cases absent

/-- Steps after which nothing is left open. -/
theorem settle (awaits : Awaits pushed base middle) (settles : Settles middle after) :
    Awaits pushed base after where
  emits := awaits.emits.trans (settles awaits.standing).emits
  standing := (settles awaits.standing).standing
  loops {id op} new there owns := by
    have later := settles awaits.standing
    have grows := later.emits.grows awaits.standing.atEnds
    rcases grows.op?_or_new there with known | since
    · rcases awaits.loops new known owns with closed | waiting
      · exact .inl (closed.of_grows grows)
      · exact .inr waiting
    · exact .inl (later.closed since there owns)

/-- A loop whose body is entered is left open. -/
theorem enter {block : BlockId} (awaits : Awaits pushed base middle) (emits : Emits [] middle after)
    (new : middle.module.blocks.size ≤ block.index)
    (listed : ∃ found, after.module.block? block = some found)
    (only : ∀ {id : OpId} {op : Operation}, middle.module.size ≤ id.index →
      after.module.op? id = some op → op.kind = .affineFor ∧ op.regions = [block]) :
    Awaits (.atEnd block :: pushed) base (after.savePoint (.atEnd block)) where
  emits := (awaits.emits.trans emits).push (Nat.le_trans awaits.emits.blocks_le new)
  standing point member := by
    rcases List.mem_cons.mp member with rfl | old
    · exact ⟨rfl, listed⟩
    · exact emits.standing awaits.standing point old
  loops {id op} since there owns := by
    have grows := emits.grows awaits.standing.atEnds
    rcases grows.op?_or_new there with known | latest
    · rcases awaits.loops since known owns with closed | ⟨kind, point, member, regions⟩
      · exact .inl (closed.of_grows grows)
      · exact .inr ⟨kind, point, List.mem_cons_of_mem _ member, regions⟩
    · obtain ⟨kind, regions⟩ := only latest there
      exact .inr ⟨kind, .atEnd block, List.mem_cons_self, regions⟩

/-- Steps that leave the module and the insertion points alone. -/
theorem of_still (emits : Emits [] before after) (standing : before.Standing)
    (same : after.module = before.module) : Awaits [] before after where
  emits := emits
  standing := emits.standing standing
  loops new there _ := by
    rw [same] at there
    exact absurd (Module.index_lt_of_op? there) (Nat.not_lt_of_le new)

end Awaits

theorem Settles.courses : BuildM.Courses Settles (fun _ _ => True) where
  refl context standing := .of_still (.refl context) standing rfl
  trans first second standing := (first standing).settle second
  halt _ := trivial
  late _ _ := trivial

end Context

namespace BuildM

open Context

variable {context : Context} {pushed rest : List InsertionPoint} {base : Context}
  {point : InsertionPoint}

/-! ## Creation -/

/-- Creating an operation with a region: the operation and the block are the next ones. -/
theorem ensures_createRegion {kind : OpKind} {operands : List Value}
    {attributes : List (String × Attribute)} {args : List ValueType}
    {done : OpId × BlockId → Context → Prop} {failed : Context → Prop}
    (created : ∀ point rest, context.stack = point :: rest →
      done (⟨context.module.ops.size⟩, ⟨context.module.blocks.size⟩)
        ({ context with module := (context.module.create
            ⟨kind, operands, [], attributes, [args]⟩ point).2 }.emit
          (.createOperation ⟨context.module.ops.size⟩ kind point.block)))
    (empty : context.stack = [] → failed context) :
    Ensures (createRegion kind operands attributes args) context done failed := by
  simp only [createRegion, ensures_bind, ensures_get, ensures_pure]
  exact ensures_create created empty

theorem keeps_tidies {α : Type} {action : BuildM α}
    (orderly : ∀ {context : Context}, context.Orderly →
      Ensures action context (fun _ after => after.Orderly) Orderly) : Keeps Tidies action :=
  leads_of orderly

/-- An operation that ends no region is created in an orderly context. -/
theorem create_tidies {draft : OpDraft} (plain : draft.kind.isTerminator = false) :
    Keeps Tidies (create draft) := by
  apply keeps_tidies
  intro context orderly
  apply ensures_create
  · intro point rest stack
    rw [Orderly, stack] at orderly
    have created := orderly.create_plain plain
    rw [← stack] at created
    exact created
  · intro _
    exact orderly

/-- The block of a region can be entered. -/
theorem createRegion_enters {kind : OpKind} {operands : List Value}
    {attributes : List (String × Attribute)} {args : List ValueType}
    (plain : kind.isTerminator = false) (orderly : context.Orderly) :
    Ensures (createRegion kind operands attributes args) context
      (fun made after => (after.savePoint (.atEnd made.2)).Orderly) Orderly := by
  have old : ∀ other ∈ context.stack, other.block ≠ ⟨context.module.blocks.size⟩ := by
    intro other member same
    obtain ⟨found, known⟩ := orderly.blocks other member
    have bound := Module.index_lt_of_block? known
    rw [same] at bound
    exact Nat.lt_irrefl _ bound
  apply ensures_createRegion
  · intro point rest stack
    rw [Orderly, stack] at orderly
    obtain ⟨found, listed⟩ := orderly.blocks point List.mem_cons_self
    have created : (context.module.create ⟨kind, operands, [], attributes, [args]⟩ point).2.Orderly
        (point :: rest) := orderly.create_plain plain
    rw [← stack] at created
    exact created.push (Module.block?_create_region listed rfl) old (orderly.unended_create rfl)
  · intro _
    exact orderly

/-! ## Order in the nest of a reduction -/

theorem emitLoop_enters (lower upper : LoopBound) (spec : LoopSpec) (orderly : context.Orderly) :
    Ensures (emitLoop lower upper spec) context
      (fun header after => (after.savePoint (.atEnd header.body)).Orderly) Orderly := by
  simp only [emitLoop, ensures_bind, ensures_emit, ensures_pure]
  exact createRegion_enters rfl orderly

theorem openAxes_tidies : ∀ axes : List Expr, (∀ axis ∈ axes, AxisLeads Tidies Tidies axis) →
    Keeps Tidies (openAxes axes)
  | [], _ => by
      rw [openAxes]
      exact Tidies.chains.pure ()
  | .axis id name lower upper :: rest, leads => by
      have bounds : AxisLeads Tidies Tidies (.axis id name lower upper) :=
        leads _ List.mem_cons_self
      rw [openAxes]
      have others := openAxes_tidies rest fun axis later => leads axis (List.mem_cons_of_mem _ later)
      apply Tidies.chains.bind bounds.1
      intro low
      apply Tidies.chains.bind bounds.2
      intro high
      apply keeps_tidies
      intro context orderly
      rw [ensures_bind]
      apply (emitLoop_enters _ _ _ orderly).mono
      · intro header after entered
        simp only [ensures_bind, ensures_bindNode, ensures_savePoint]
        exact (others _).mono (fun _ _ tidies => tidies entered) fun _ tidies => tidies entered
      · intro _ failed
        exact failed
  | .constant .. :: _, _ | .loopVar .. :: _, _ | .unary .. :: _, _ | .binary .. :: _, _
  | .compare .. :: _, _ | .cast .. :: _, _ | .load .. :: _, _ | .store .. :: _, _
  | .select .. :: _, _ | .call .. :: _, _ | .getBit .. :: _, _ | .reduce .. :: _, _ => by
      rw [openAxes]
      · exact Tidies.chains.throw _
      · simp

/-- The insertion point of a loop is given up right after the loop was ended. -/
theorem closeLoops_tidies : ∀ count : Nat, Keeps Tidies (closeLoops count)
  | 0 => Tidies.chains.pure ()
  | count + 1 => by
      apply keeps_tidies
      intro context orderly
      simp only [closeLoops, emitYield, restorePoint, ensures_bind, ensures_get, ensures_pure]
      apply ensures_create
      · intro point rest stack
        simp only [Context.emit, stack, ensures_bind, ensures_set, ensures_emit, ensures_pure]
        rw [Orderly, stack] at orderly
        exact (closeLoops_tidies count _).mono (fun _ _ tidies => tidies orderly.create)
          fun _ tidies => tidies orderly.create
      · intro _
        exact orderly

/-- Leaving a region gives up insertion points. -/
theorem leaveRegion_orderly {mark : RegionMark} (orderly : context.Orderly) :
    (context.leaveRegion mark).Orderly :=
  Module.Orderly.sublist orderly (List.drop_sublist _ _)

theorem tidies_steps : Steps Tidies Tidies where
  toCourses := Tidies.chains.courses
  log _ _ orderly := orderly
  bindNode _ _ _ orderly := orderly
  create plain _ := create_tidies (OpKind.isTerminator_of_isPlain plain)

theorem tidies_building : Building Tidies Tidies where
  toSteps := tidies_steps
  nest acc kind dtype body axes built leads context := by
    have nest : Keeps Tidies (reduceNest acc kind dtype body axes) := by
      rw [reduceNest_eq]
      refine Tidies.chains.bind (openAxes_tidies axes leads) fun _ => ?_
      exact Tidies.chains.bind (tidies_steps.accumulatorStep acc kind dtype built) fun _ =>
        closeLoops_tidies axes.length
    rw [ensures_inRegion]
    exact (nest context.enterRegion).mono
      (fun _ _ tidies orderly => leaveRegion_orderly (tidies orderly))
      fun _ tidies orderly => leaveRegion_orderly (tidies orderly)

/-- Building any node keeps a context orderly. -/
theorem build_tidies (expr : Expr) : Keeps Tidies (build expr) := tidies_building.build expr

/-! ## Ends of the loops that were created -/

theorem leads_settles {α : Type} {action : BuildM α}
    (settles : ∀ {context : Context}, context.Standing →
      Ensures action context (fun _ after => Awaits [] context after) (fun _ => True)) :
    Leads Settles (fun _ _ => True) action := by
  have leads : Leads Settles (fun before _ => before.Standing → True) action := leads_of settles
  exact fun context => (leads context).mono (fun _ _ settled => settled) fun _ _ => trivial

/-- An operation without a region needs no end. -/
theorem create_settles {draft : OpDraft} (plain : draft.kind.terminator? = none) :
    Leads Settles (fun _ _ => True) (create draft) := leads_settles fun {context} standing => by
  have created : Ensures (create draft) context
      (fun _ after => ∀ {id : OpId} {op : Operation}, context.module.size ≤ id.index →
        after.module.op? id = some op → op.kind = draft.kind) (fun _ => True) :=
    ensures_create (fun point rest stack _ _ new there => (Module.op?_create_new new there).1)
      fun _ => trivial
  refine ((create_emits draft context).and created).mono ?_ fun _ _ => trivial
  rintro id after ⟨emits, kinds⟩
  refine ⟨emits, emits.standing standing, fun new there owns => ?_⟩
  rw [kinds new there] at owns
  exact absurd plain owns

theorem settles_steps : Steps Settles (fun _ _ => True) where
  toCourses := Settles.courses
  log context event standing := .of_still (.emit context event) standing rfl
  bindNode context id binding standing := .of_still (.bind context id binding) standing rfl
  create plain _ := create_settles (OpKind.terminator?_of_isPlain plain)

/-- The only operation that is created for a loop is the loop, whose body can be entered. -/
theorem emitLoop_opens (lower upper : LoopBound) (spec : LoopSpec) (standing : context.Standing) :
    Ensures (emitLoop lower upper spec) context
      (fun header after => Emits [] context after ∧
        context.module.blocks.size ≤ header.body.index ∧
        (∃ found, after.module.block? header.body = some found) ∧
        ∀ {id : OpId} {op : Operation}, context.module.size ≤ id.index →
          after.module.op? id = some op → op.kind = .affineFor ∧ op.regions = [header.body])
      (fun _ => True) := by
  have created : Ensures (emitLoop lower upper spec) context
      (fun header after => (∃ found, after.module.block? header.body = some found) ∧
        ∀ {id : OpId} {op : Operation}, context.module.size ≤ id.index →
          after.module.op? id = some op → op.kind = .affineFor ∧ op.regions = [header.body])
      (fun _ => True) := by
    simp only [emitLoop, ensures_bind, ensures_emit, ensures_pure]
    refine ensures_createRegion (fun point rest stack => ?_) fun _ => trivial
    obtain ⟨-, found, listed⟩ := standing point (by simp [stack])
    refine ⟨⟨_, Module.block?_create_region listed rfl⟩, fun new there => ?_⟩
    exact Module.op?_create_new new there
  refine ((emitLoop_emits lower upper spec context).and created).mono ?_ fun _ _ => trivial
  rintro header after ⟨⟨emits, body⟩, listed, only⟩
  exact ⟨emits, Nat.le_of_eq (congrArg BlockId.index body).symm, listed, only⟩

/-- Opening the loops of axes leaves these loops open. -/
theorem openAxes_awaits : ∀ (axes : List Expr) {base context : Context}
    {pushed : List InsertionPoint},
    (∀ axis ∈ axes, AxisLeads Settles (fun _ _ => True) axis) → Awaits pushed base context →
    Ensures (openAxes axes) context
      (fun _ after => ∃ more, more.length = axes.length ∧ Awaits (more ++ pushed) base after)
      (fun _ => True)
  | [], base, context, pushed, _, awaits => ⟨[], rfl, awaits⟩
  | .axis id name lower upper :: rest, base, context, pushed, leads, awaits => by
      have bounds : AxisLeads Settles (fun _ _ => True) (.axis id name lower upper) :=
        leads _ List.mem_cons_self
      rw [openAxes, ensures_bind]
      refine (bounds.1 context).mono (fun low first step => ?_) fun _ _ => trivial
      have awaits := awaits.settle step
      rw [ensures_bind]
      refine (bounds.2 first).mono (fun high second step => ?_) fun _ _ => trivial
      have awaits := awaits.settle step
      rw [ensures_bind]
      refine (emitLoop_opens _ _ _ awaits.standing).mono ?_ fun _ _ => trivial
      rintro header third ⟨emits, new, listed, only⟩
      simp only [ensures_bind, ensures_bindNode, ensures_savePoint]
      have others := fun axis later => leads axis (List.mem_cons_of_mem _ later)
      have bound := emits.trans (.bind third id (.value header.counter))
      have opened := awaits.enter bound new listed only
      refine (openAxes_awaits rest others opened).mono ?_ fun _ _ => trivial
      rintro - last ⟨more, depth, inner⟩
      refine ⟨more ++ [.atEnd header.body], by simp [depth], ?_⟩
      simpa using inner
  | .constant .. :: _, _, _, _, _, _ | .loopVar .. :: _, _, _, _, _, _
  | .unary .. :: _, _, _, _, _, _ | .binary .. :: _, _, _, _, _, _
  | .compare .. :: _, _, _, _, _, _ | .cast .. :: _, _, _, _, _, _
  | .load .. :: _, _, _, _, _, _ | .store .. :: _, _, _, _, _, _
  | .select .. :: _, _, _, _, _, _ | .call .. :: _, _, _, _, _, _
  | .getBit .. :: _, _, _, _, _, _ | .reduce .. :: _, _, _, _, _, _ => trivial

/-- Ending the loop of the current insertion point, and giving the point up. -/
theorem emitYield_closes (awaits : Awaits (point :: rest) base context) :
    Ensures emitYield context
      (fun _ after => Awaits rest base { after with stack := rest ++ base.stack })
      (fun _ => True) := by
  have stack : context.stack = point :: (rest ++ base.stack) := awaits.emits.stack
  obtain ⟨atEnd, found, listed⟩ := awaits.standing point (by simp [stack])
  have created : Ensures emitYield context
      (fun _ after => after.module = (context.module.create ⟨.yield, [], [], [], []⟩ point).2)
      (fun _ => True) := by
    simp only [emitYield, ensures_bind, ensures_pure]
    refine ensures_create (fun other below same => ?_) fun _ => trivial
    obtain rfl : point = other := by
      rw [stack] at same
      exact (List.cons.inj same).1
    rfl
  refine ((emitYield_emits context).and created).mono ?_ fun _ _ => trivial
  rintro - after ⟨emits, made⟩
  have grows := emits.grows awaits.standing.atEnds
  refine ⟨(awaits.emits.trans emits).pop, ?_, ?_⟩
  · intro other member
    exact emits.standing awaits.standing other
      (emits.stack ▸ stack ▸ List.mem_cons_of_mem point member)
  · intro id op since there owns
    rcases grows.op?_or_new there with known | new
    · rcases awaits.loops since known owns with closed | ⟨kind, other, member, regions⟩
      · exact .inl (closed.of_grows grows)
      rcases List.mem_cons.mp member with rfl | below
      · have ends : op.kind.terminator? = some .yield := by
          rw [kind]
          rfl
        have closed : (context.module.create ⟨.yield, [], [], [], []⟩ other).2.Sealed id :=
          Module.sealed_create known regions ends listed atEnd
        exact .inl (made ▸ closed)
      · exact .inr ⟨kind, other, below, regions⟩
    · rw [made] at there
      rw [(Module.op?_create_new new there).1] at owns
      exact absurd rfl owns

/-- Closing the loops that are open leaves none without its end. -/
theorem closeLoops_awaits : ∀ (pushed : List InsertionPoint) {context : Context},
    Awaits pushed base context →
    Ensures (closeLoops pushed.length) context (fun _ after => Awaits [] base after) (fun _ => True)
  | [], _, awaits => awaits
  | point :: rest, context, awaits => by
      have stack : context.stack = point :: (rest ++ base.stack) := awaits.emits.stack
      simp only [List.length_cons, closeLoops, restorePoint, ensures_bind, ensures_get]
      refine ((emitYield_emits context).and (emitYield_closes awaits)).mono ?_ fun _ _ => trivial
      rintro - after ⟨emits, closed⟩
      have same : after.stack = point :: (rest ++ base.stack) := emits.stack.trans stack
      rw [same]
      simp only [ensures_bind, ensures_set, ensures_emit, ensures_pure]
      exact closeLoops_awaits rest (closed.settle (settles_steps.log _ _))

theorem settles_building : Building Settles (fun _ _ => True) where
  toSteps := settles_steps
  nest acc kind dtype body axes built leads := leads_settles fun {context} standing => by
    have start : Awaits [] context.enterRegion context.enterRegion :=
      .of_still (.refl _) standing rfl
    rw [ensures_inRegion, reduceNest_eq, ensures_bind]
    refine (openAxes_awaits axes leads start).mono ?_ fun _ _ => trivial
    rintro - first ⟨pushed, depth, opened⟩
    rw [List.append_nil] at opened
    rw [ensures_bind]
    refine (settles_steps.accumulatorStep acc kind dtype built first).mono (fun _ second step => ?_)
      fun _ _ => trivial
    rw [← depth]
    refine (closeLoops_awaits pushed (opened.settle step)).mono (fun _ last closed => ?_)
      fun _ _ => trivial
    exact ⟨closed.emits.leave, closed.emits.leave.standing standing, closed.loops⟩

/-- If building a node succeeds, then no operation that was created in it is left without its
end. -/
theorem build_settles (expr : Expr) : Leads Settles (fun _ _ => True) (build expr) :=
  settles_building.build expr

end BuildM

/-! ## Regions of statements -/

namespace Context

variable {origin before middle after context : Context} {kind : OpKind} {id : OpId}
  {block : BlockId} {point : InsertionPoint} {rest : List InsertionPoint}

theorem Emits.grown {pushed : List InsertionPoint} (emits : Emits pushed before after)
    (orderly : before.Orderly) : Module.Grows (fun _ => True) before.module after.module :=
  (emits.grows orderly.standing.atEnds).mono fun _ _ => trivial

/-- An orderly context with the insertion points of an earlier one, whose module has grown. -/
structure Continues (before after : Context) : Prop where
  orderly : after.Orderly
  stack : after.stack = before.stack
  grows : Module.Grows (fun _ => True) before.module after.module

/-- An orderly context is continued. -/
def Conducts (before after : Context) : Prop := before.Orderly → Continues before after

theorem Orderly.continues (orderly : context.Orderly) : Continues context context :=
  ⟨orderly, rfl, .refl _ _⟩

theorem Continues.trans (first : Continues before middle) (second : Continues middle after) :
    Continues before after :=
  ⟨second.orderly, second.stack.trans first.stack,
    first.grows.trans second.grows fun _ _ _ => trivial⟩

theorem Conducts.chains : BuildM.Chains Conducts where
  refl _ orderly := orderly.continues
  trans first second orderly := (first orderly).trans (second (first orderly).orderly)

/-- An operation with an empty region was created, whose block can be entered. -/
structure Enters (kind : OpKind) (id : OpId) (block : BlockId) (before after : Context) : Prop where
  stack : after.stack = before.stack
  grows : Module.Grows (fun _ => True) before.module after.module
  entered : (after.savePoint (.atEnd block)).Orderly
  op : ∃ op, after.module.op? id = some op ∧ op.kind = kind ∧ op.regions = [block]

theorem Enters.since (begins : Enters kind id block before after)
    (continues : Continues origin before) : Enters kind id block origin after where
  stack := begins.stack.trans continues.stack
  grows := continues.grows.trans begins.grows fun _ _ _ => trivial
  entered := begins.entered
  op := begins.op

/-- Only the module and the insertion points matter. -/
theorem Enters.still (begins : Enters kind id block before middle)
    (module : after.module = middle.module) (stack : after.stack = middle.stack) :
    Enters kind id block before after where
  stack := stack.trans begins.stack
  grows := module ▸ begins.grows
  entered := by
    have entered : middle.module.Orderly (.atEnd block :: middle.stack) := begins.entered
    rw [← module, ← stack] at entered
    exact entered
  op := module ▸ begins.op

/-- A context whose current insertion point may be given up. -/
structure Leaves (rest : List InsertionPoint) (before after : Context) : Prop where
  stack : after.stack = before.stack
  grows : Module.Grows (fun _ => True) before.module after.module
  below : after.module.Orderly rest

/-- Besides, the region of the insertion point was ended. -/
structure Ends (kind : OpKind) (point : InsertionPoint) (rest : List InsertionPoint)
    (before after : Context) : Prop extends Leaves rest before after where
  closed : ∀ {id : OpId} {op : Operation}, before.module.op? id = some op →
    op.regions = [point.block] → op.kind.terminator? = some kind → after.module.Sealed id

theorem Continues.leaves (continues : Continues before after) (stack : before.stack = point :: rest) :
    Leaves rest before after where
  stack := continues.stack
  grows := continues.grows
  below := continues.orderly.sublist
    (continues.stack ▸ stack ▸ List.sublist_cons_self point rest)

end Context

namespace BuildM

open Context

variable {context : Context} {kind : OpKind} {point : InsertionPoint} {rest : List InsertionPoint}

theorem keeps_conducts {α : Type} {action : BuildM α} (tidies : Keeps Tidies action)
    (emits : Keeps (Emits []) action) : Keeps Conducts action := by
  have continues : ∀ {context after : Context}, context.Tidies after ∧ Emits [] context after →
      context.Orderly → Continues context after := by
    rintro context after ⟨tidies, emits⟩ orderly
    exact ⟨tidies orderly, emits.stack, emits.grown orderly⟩
  exact fun context => ((tidies context).and (emits context)).mono
    (fun _ _ both => continues both) fun _ both => continues both

/-- Building continues an orderly context, and so does giving storage to a tensor. -/
theorem conducts_firm : Firm Conducts where
  toChains := Conducts.chains
  log _ _ orderly := ⟨orderly, rfl, .refl _ _⟩
  freshId _ orderly := ⟨orderly, rfl, .refl _ _⟩
  build expr := keeps_conducts (build_tidies expr) (build_emits expr)
  allocTensor tensor := by
    refine Conducts.chains.bind (Conducts.chains.checkType _) fun _ => ?_
    refine Conducts.chains.bind (keeps_conducts (tidies_steps.createValue rfl _ _ _)
      (createValue_emits _ _ _ _)) fun value => ?_
    refine Conducts.chains.bind (fun _ orderly => ?_) fun _ => Conducts.chains.pure _
    exact ⟨orderly, rfl, .refl _ _⟩

/-! ### Beginnings -/

theorem createRegion_begins {operands : List Value} {attributes : List (String × Attribute)}
    {args : List ValueType} (plain : kind.isTerminator = false) (orderly : context.Orderly) :
    Ensures (createRegion kind operands attributes args) context
      (fun made after => Enters kind made.1 made.2 context after) (Continues context) := by
  have created : Ensures (createRegion kind operands attributes args) context
      (fun made after => ∃ op, after.module.op? made.1 = some op ∧ op.kind = kind ∧
        op.regions = [made.2]) (fun _ => True) :=
    ensures_createRegion (fun point rest stack => ⟨_, Module.op?_create_self, rfl, rfl⟩)
      fun _ => trivial
  refine ((createRegion_enters plain orderly).and
    ((createRegion_emits kind operands attributes args context).and created)).mono ?_ ?_
  · rintro made after ⟨entered, ⟨emits, -⟩, op⟩
    exact ⟨emits.stack, emits.grown orderly, entered, op⟩
  · rintro after ⟨kept, emits, -⟩
    exact ⟨kept, emits.stack, emits.grown orderly⟩

/-- Giving tensors the arguments of a block as storage is no matter of the module. -/
theorem bindArgs_still (block : BlockId) : ∀ (tensors : List Tensor) (position : Nat),
    Keeps (fun before after => after.module = before.module ∧ after.stack = before.stack)
      (bindArgs block position tensors)
  | [], _ => fun _ => ⟨rfl, rfl⟩
  | tensor :: rest, position => by
      intro context
      rw [bindArgs, ensures_bind, ensures_modify]
      exact bindArgs_still block rest (position + 1) _

theorem beginFunction_begins (name : String) (args : List Tensor) (orderly : context.Orderly) :
    Ensures (beginFunction name args) context
      (fun made after => Enters .func made.1 made.2 context after) (Continues context) := by
  simp only [beginFunction, ensures_bind, ensures_emit, ensures_pure]
  refine (createRegion_begins rfl orderly).mono ?_ fun _ failed => failed
  rintro ⟨id, block⟩ opened begins
  refine (bindArgs_still block args 0 opened).mono ?_ ?_
  · rintro - after ⟨module, stack⟩
    exact begins.still module stack
  · rintro after ⟨module, stack⟩
    have begins := begins.still module stack
    exact ⟨begins.entered.sublist (List.sublist_cons_self _ _), begins.stack, begins.grows⟩

theorem beginLoop_begins (lower upper : Bound) (spec : LoopSpec) (orderly : context.Orderly) :
    Ensures (beginLoop lower upper spec) context
      (fun made after => Enters .affineFor made.2.op made.2.body context after)
      (Continues context) := by
  have bounds : ∀ bound : Bound, Keeps Conducts (buildBound bound) := fun bound =>
    keeps_conducts (tidies_building.buildBound bound) (buildBound_emits bound)
  simp only [beginLoop, ensures_bind, ensures_freshId, ensures_pure]
  have counted : Continues context { context with nextId := context.nextId + 1 } :=
    conducts_firm.freshId context orderly
  refine (bounds lower _).mono (fun low first step => ?_) fun _ step =>
    counted.trans (step counted.orderly)
  have continues := counted.trans (step counted.orderly)
  refine (bounds upper first).mono (fun high second step => ?_) fun _ step =>
    continues.trans (step continues.orderly)
  have continues := continues.trans (step continues.orderly)
  simp only [emitLoop, ensures_bind, ensures_emit, ensures_pure]
  refine (createRegion_begins rfl continues.orderly).mono ?_ fun _ failed => continues.trans failed
  intro made after begins
  exact Enters.since (begins.still rfl rfl) continues

theorem beginConditional_begins (condition : Expr) (orderly : context.Orderly) :
    Ensures (beginConditional condition) context
      (fun made after => Enters .affineIf made.1 made.2 context after) (Continues context) := by
  rw [beginConditional, ensures_bind]
  refine ensures_valueType (fun dtype _ => ?_) orderly.continues
  dsimp only
  split
  · exact orderly.continues
  rw [ensures_bind]
  refine (conducts_firm.buildValue condition context).mono (fun value first step => ?_)
    fun _ step => step orderly
  have continues := step orderly
  have cast : Keeps Conducts (emitCast value dtype .index) :=
    keeps_conducts (tidies_steps.emitCast _ _ _) (emits_steps.emitCast _ _ _)
  rw [ensures_bind]
  refine (cast first).mono (fun index second step => ?_) fun _ step =>
    continues.trans (step continues.orderly)
  have continues := continues.trans (step continues.orderly)
  exact (createRegion_begins rfl continues.orderly).mono (fun _ _ begins => begins.since continues)
    fun _ failed => continues.trans failed

/-! ### Ends -/

/-- Creating an operation in the block of the current insertion point, which is given up then. -/
theorem create_ends {draft : OpDraft} (stack : context.stack = point :: rest)
    (orderly : context.Orderly) :
    Ensures (create draft) context (fun _ after => Ends draft.kind point rest context after)
      (Leaves rest context) := by
  have current : context.module.Orderly (point :: rest) := stack ▸ orderly
  obtain ⟨found, listed⟩ := current.blocks point List.mem_cons_self
  apply ensures_create
  · intro other below same
    obtain ⟨rfl, rfl⟩ : point = other ∧ rest = below := List.cons.inj (stack.symm.trans same)
    have atEnd := current.ends point List.mem_cons_self
    exact {
      stack := rfl
      grows := (Module.grows_create atEnd).mono fun _ _ => trivial
      below := current.create
      closed := fun there regions ends => Module.sealed_create there regions ends listed atEnd }
  · intro empty
    rw [stack] at empty
    cases empty

theorem endBody_ends (stack : context.stack = point :: rest) (orderly : context.Orderly) :
    Ensures endBody context (fun _ after => Ends .yield point rest context after)
      (Leaves rest context) := by
  simp only [endBody, emitYield, ensures_bind, ensures_pure]
  exact create_ends stack orderly

theorem endFunction_ends (result : Option Expr) (stack : context.stack = point :: rest)
    (orderly : context.Orderly) :
    Ensures (endFunction result) context (fun _ after => Ends .ret point rest context after)
      (Leaves rest context) := by
  have returned : ∀ (operands : List Value) {middle : Context}, Continues context middle →
      Ensures (create { kind := .ret, operands }) middle
        (fun _ after => Ends .ret point rest context after) (Leaves rest context) := by
    intro operands middle continues
    refine (create_ends (continues.stack.trans stack) continues.orderly).mono
      (fun _ after ends => ?_) fun after leaves => ?_
    · exact {
        stack := ends.stack.trans continues.stack
        grows := continues.grows.trans ends.grows fun _ _ _ => trivial
        below := ends.below
        closed := fun there => ends.closed (continues.grows.op? there) }
    · exact ⟨leaves.stack.trans continues.stack,
        continues.grows.trans leaves.grows fun _ _ _ => trivial, leaves.below⟩
  cases result with
  | none =>
      simp only [endFunction, ensures_bind, ensures_pure]
      exact returned [] orderly.continues
  | some expr =>
      simp only [endFunction, ensures_bind, ensures_pure]
      refine (conducts_firm.buildValue expr context).mono (fun value middle step => ?_)
        fun _ step => (step orderly).leaves stack
      exact returned [value] (step orderly)

end BuildM

end AffineKernel
