import AffineKernel.Proofs.Build.Frame
import AffineKernel.Proofs.Build.Pool

/-!
# What regions do to bindings

Closing a region undoes the bindings that were made in it. That restores the
bindings that were there before unless a node that was bound already was bound
again, since then the binding from before is lost with the new one. Building a
node binds only nodes that are not bound, with one exception: a reduction binds
its axes whatever they are bound to.

`Expr.swept` lists the axes of the reductions that building a node may
synthesize, and `Context.Turns` says what becomes of bindings while the axes of
some set are swept: a node that is logged was not bound before, or is such an
axis; and a node that is not logged is bound as before, or is such an axis and
not bound any more. This holds of building any node in any context
(`BuildM.build_turns`). So after the nest of a reduction every node is bound as
before it, or it is an axis of the nest or of a reduction inside of it, and is
unbound (`BuildM.nest_restores`).
-/

set_option autoImplicit false

namespace AffineKernel

/-! ## Swept axes -/

/-- Whether a node is an axis. -/
def Expr.isAxis : Expr → Bool
  | .axis .. => true
  | _ => false

mutual

/-- The axes of the reductions that building a node may synthesize. The indices of accesses are not
built, and neither are the bounds of an axis that a node only uses. -/
def Expr.swept : Expr → List NodeId
  | .constant .. | .loopVar .. | .axis .. | .load .. => []
  | .unary _ _ _ operand => operand.swept
  | .binary _ _ _ lhs rhs | .compare _ _ lhs rhs => lhs.swept ++ rhs.swept
  | .cast _ _ source => source.swept
  | .store _ _ value _ => value.swept
  | .select _ _ condition thenValue elseValue =>
    condition.swept ++ (thenValue.swept ++ elseValue.swept)
  | .call _ _ _ args => sweptArgs args
  | .getBit _ value bit => value.swept ++ bit.swept
  | .reduce _ _ _ body axes => sweptAxes axes ++ body.swept

/-- The axes that building a bound may sweep. -/
def Bound.swept : Bound → List NodeId
  | .const _ => []
  | .expr value => value.swept

/-- The axes of a nest, and those that building their bounds may sweep. -/
def sweptAxes : List Expr → List NodeId
  | .axis id _ lower upper :: rest => id :: (lower.swept ++ (upper.swept ++ sweptAxes rest))
  | _ => []

/-- The axes that building the arguments of a call may sweep. -/
def sweptArgs : List CallArg → List NodeId
  | [] => []
  | .expr value :: rest => value.swept ++ sweptArgs rest
  | .tensor _ :: rest => sweptArgs rest

end

namespace Context

variable {made axes : NodeId → Prop} {before middle after context : Context}

/-- What an action without a binding leaves alone. -/
structure Quiet (before after : Context) : Prop where
  bindings : after.bindings = before.bindings
  regionNodes : after.regionNodes = before.regionNodes
  regions : after.regions = before.regions

theorem Quiet.chains : BuildM.Chains Quiet where
  refl _ := ⟨rfl, rfl, rfl⟩
  trans first second := ⟨second.bindings.trans first.bindings,
    second.regionNodes.trans first.regionNodes, second.regions.trans first.regions⟩

/-- Closing a region binds nothing. -/
theorem binding?_of_leave {mark : RegionMark} {id : NodeId} {binding : Binding}
    (found : (context.leaveRegion mark).binding? id = some binding) :
    context.binding? id = some binding := by
  simp only [binding?, leaveRegion, Table.find?_eraseAll] at found
  split at found
  · cases found
  · exact found

/-- Nodes that are bound are bound as before or are in `made`. In an open region, the nodes that
were bound since are logged, and only axes of a set are bound again or lose their bindings. -/
structure Turns (made axes : NodeId → Prop) (before after : Context) : Prop where
  regions : after.regions = before.regions
  new : ∀ id binding, after.binding? id = some binding →
    before.binding? id = some binding ∨ made id
  logged : ∃ bound, after.regionNodes = bound ++ before.regionNodes ∧ (0 < before.regions →
    ∀ id, if id ∈ bound then before.binding? id = none ∨ axes id
      else after.binding? id = before.binding? id ∨ axes id ∧ after.binding? id = none)

namespace Turns

theorem of_quiet (quiet : Quiet before after) : Turns made axes before after where
  regions := quiet.regions
  new id binding found := .inl (by rwa [binding?, quiet.bindings] at found)
  logged := ⟨[], quiet.regionNodes, fun _ id => by simp [binding?, quiet.bindings]⟩

theorem trans (first : Turns made axes before middle) (second : Turns made axes middle after) :
    Turns made axes before after where
  regions := second.regions.trans first.regions
  new id binding found := by
    rcases second.new id binding found with old | new
    · exact first.new id binding old
    · exact .inr new
  logged := by
    obtain ⟨bound, nodes, known⟩ := first.logged
    obtain ⟨later, laterNodes, laterKnown⟩ := second.logged
    refine ⟨later ++ bound, by rw [laterNodes, nodes, List.append_assoc], fun inside id => ?_⟩
    have known := known inside id
    have laterKnown := laterKnown (first.regions ▸ inside) id
    grind

theorem chains (made axes : NodeId → Prop) : BuildM.Chains (Turns made axes) where
  refl context := of_quiet (Quiet.chains.refl context)
  trans := trans

/-- More nodes, and more axes. -/
theorem mono {more others : NodeId → Prop} (turns : Turns made axes before after)
    (names : ∀ id, made id → more id) (sweeps : ∀ id, axes id → others id) :
    Turns more others before after where
  regions := turns.regions
  new id binding found := (turns.new id binding found).imp_right (names id)
  logged := by
    obtain ⟨bound, nodes, known⟩ := turns.logged
    refine ⟨bound, nodes, fun inside id => ?_⟩
    have known := known inside id
    have sweeps := sweeps id
    grind

/-- A node is bound that was not bound before, or an axis. -/
theorem bind (turns : Turns made axes before after) {id : NodeId} (binding : Binding)
    (free : before.binding? id = none ∨ axes id) (named : made id) :
    Turns made axes before (after.bind id binding) where
  regions := turns.regions
  new other found known := by
    rw [binding?_bind] at known
    split at known
    · rename_i same
      exact .inr (same ▸ named)
    · exact turns.new other found known
  logged := by
    obtain ⟨bound, nodes, known⟩ := turns.logged
    by_cases inside : 0 < before.regions
    · refine ⟨id :: bound, by simp [Context.bind, turns.regions, inside, nodes], fun _ other => ?_⟩
      have known := known inside other
      have bound := binding?_bind after id other binding
      grind
    · exact ⟨bound, by simp [Context.bind, turns.regions, inside, nodes],
        fun positive => absurd positive inside⟩

/-- What the bindings are after a region is closed. -/
theorem binding?_leave (turns : Turns made axes context.enterRegion after) (id : NodeId) :
    (after.leaveRegion context.mark).binding? id = context.binding? id ∨
      axes id ∧ (after.leaveRegion context.mark).binding? id = none := by
  obtain ⟨bound, nodes, known⟩ := turns.logged
  have nodes : after.regionNodes = bound ++ context.regionNodes := nodes
  have known := known (Nat.succ_pos _) id
  have left : (after.leaveRegion context.mark).binding? id =
      if id ∈ bound then none else after.binding? id := by
    simp [binding?, leaveRegion, mark, nodes, Table.find?_eraseAll]
  have before : context.enterRegion.binding? id = context.binding? id := rfl
  grind

/-- A region that is closed leaves no new bindings. -/
theorem leave (turns : Turns made axes context.enterRegion after) (names : NodeId → Prop) :
    Turns names axes context (after.leaveRegion context.mark) where
  regions := by
    have regions : after.regions = context.regions + 1 := turns.regions
    simp [leaveRegion, regions]
  new id binding found := by
    rcases turns.binding?_leave id with same | ⟨-, none⟩
    · exact .inl (same ▸ found)
    · rw [none] at found
      cases found
  logged := by
    obtain ⟨bound, nodes, -⟩ := turns.logged
    have nodes : after.regionNodes = bound ++ context.regionNodes := nodes
    refine ⟨[], by simp [leaveRegion, mark, nodes], fun _ id => ?_⟩
    simpa using turns.binding?_leave id

end Turns

end Context

namespace BuildM

open Context

variable {α : Type} {made axes : NodeId → Prop}

/-! ## Steps without a binding -/

theorem create_quiet (draft : OpDraft) : Keeps Quiet (create draft) := fun _ =>
  ensures_create (fun _ _ _ => ⟨rfl, rfl, rfl⟩) fun _ => ⟨rfl, rfl, rfl⟩

theorem quiet_creations : Creations Quiet Quiet where
  toCourses := Quiet.chains.courses
  log _ _ := ⟨rfl, rfl, rfl⟩
  create _ _ := create_quiet _

theorem createRegion_quiet (kind : OpKind) (operands : List Value)
    (attributes : List (String × Attribute)) (args : List ValueType) :
    Keeps Quiet (createRegion kind operands attributes args) :=
  Keeps.get_bind fun _ => Quiet.chains.bind (create_quiet _) fun _ => Quiet.chains.pure _

theorem emitYield_quiet : Keeps Quiet emitYield :=
  Quiet.chains.bind (create_quiet _) fun _ => Quiet.chains.pure _

theorem emitLoop_quiet (lower upper : LoopBound) (spec : LoopSpec) :
    Keeps Quiet (emitLoop lower upper spec) :=
  Quiet.chains.bind (createRegion_quiet _ _ _ _) fun _ =>
    Quiet.chains.bind (fun _ => ⟨rfl, rfl, rfl⟩) fun _ => Quiet.chains.pure _

theorem restorePoint_quiet : Keeps Quiet restorePoint := by
  intro context
  simp only [restorePoint, ensures_bind, ensures_get]
  split
  · exact Quiet.chains.refl context
  · simp only [ensures_bind, ensures_set, ensures_emit, ensures_pure]
    exact ⟨rfl, rfl, rfl⟩

theorem closeLoops_quiet : ∀ count : Nat, Keeps Quiet (closeLoops count)
  | 0 => Quiet.chains.pure ()
  | count + 1 =>
      Quiet.chains.bind emitYield_quiet fun _ =>
        Quiet.chains.bind restorePoint_quiet fun _ => closeLoops_quiet count

theorem turns_of_quiet {action : BuildM α} (keeps : Keeps Quiet action) :
    Keeps (Turns made axes) action :=
  keeps.mono fun _ _ => Turns.of_quiet

theorem turns_creations (made axes : NodeId → Prop) :
    Creations (Turns made axes) (Turns made axes) where
  toCourses := (Turns.chains made axes).courses
  log _ _ := Turns.of_quiet ⟨rfl, rfl, rfl⟩
  create _ _ := turns_of_quiet (create_quiet _)

/-! ## Nodes -/

/-- A node that is not bound before is bound after. -/
theorem once_turns {id : NodeId} (named : made id) (name : String) {action : BuildM Binding}
    (turns : Keeps (Turns made axes) action) : Keeps (Turns made axes) (once id name action) := by
  intro context
  simp only [once, ensures_bind, ensures_get]
  split
  · exact (Turns.chains made axes).refl context
  · rename_i free
    simp only [ensures_bind, ensures_emit, ensures_bindNode, ensures_pure]
    have started : Turns made axes context (context.emit (.materialize id name)) :=
      Turns.of_quiet ⟨rfl, rfl, rfl⟩
    refine (turns _).mono (fun binding after stepped => ?_) fun after stepped =>
      started.trans stepped
    exact (started.trans stepped).bind binding (.inl free) named

theorem onceValue_turns {id : NodeId} (named : made id) (name : String) {action : BuildM Value}
    (turns : Keeps (Turns made axes) action) :
    Keeps (Turns made axes) (onceValue id name action) :=
  once_turns named name (turns.map Binding.value)

/-- The nest of a reduction, as a region. -/
theorem inRegion_turns {action : BuildM α} {names : NodeId → Prop}
    (turns : Keeps (Turns names axes) action) : Keeps (Turns made axes) (inRegion action) := by
  intro context
  rw [ensures_inRegion]
  exact (turns _).mono (fun _ _ inside => inside.leave made) fun _ inside => inside.leave made

/-- The nodes that `nodes` holds of are closed under what building visits, and those that are no
axes have names in `made`. -/
structure Names (nodes : Expr → Prop) (made : NodeId → Prop) : Prop where
  operands : ∀ {expr : Expr}, nodes expr → ∀ operand ∈ expr.operands, nodes operand
  bounds : ∀ {expr : Expr}, nodes expr → ∀ bound ∈ expr.bounds, nodes bound
  named : ∀ {expr : Expr}, nodes expr → expr.isAxis = false → made expr.id

theorem reduceNest_turns (acc : Accumulator) (kind : ReduceKind) (dtype : DType) {body : Expr}
    {list : List Expr} (opened : Keeps (Turns made axes) (openAxes list))
    (built : Keeps (Turns made axes) (build body)) :
    Keeps (Turns made axes) (reduceNest acc kind dtype body list) := by
  rw [reduceNest_eq]
  have creations := turns_creations made axes
  refine creations.bind opened fun _ => ?_
  refine creations.bind (creations.accumulatorStep acc kind dtype built) fun _ => ?_
  exact turns_of_quiet (closeLoops_quiet _)

/-- An operand is built, and its value is needed. -/
theorem operand_turns {expr : Expr} {next : Value → BuildM α}
    (built : Keeps (Turns made axes) (build expr))
    (later : ∀ value, Keeps (Turns made axes) (next value)) :
    Keeps (Turns made axes) (do
      let binding ← build expr
      let value ← needValue expr.name binding
      next value) :=
  (turns_creations made axes).bind built fun _ =>
    (turns_creations made axes).bind ((turns_creations made axes).needValue _ _) later

section Nodes

variable {nodes : Expr → Prop}

mutual

/-- Building a node turns the axes that it sweeps. -/
theorem build_turns (names : Names nodes made) : ∀ expr : Expr, nodes expr → (∀ id ∈ expr.swept, axes id) →
    Keeps (Turns made axes) (build expr)
  | .constant id dtype value, member, _ =>
      onceValue_turns (names.named member rfl) _ ((turns_creations made axes).createValue rfl _ _ _)
  | .loopVar id name, member, _ =>
      onceValue_turns (names.named member rfl) _ ((turns_creations made axes).throw _)
  | .axis id name lower upper, _, _ => by
      -- An axis that is not bound is not bound afterwards either.
      intro context
      simp only [build, onceValue, once, ensures_bind, ensures_get]
      split
      · exact (turns_creations made axes).refl context
      · exact Turns.of_quiet ⟨rfl, rfl, rfl⟩
  | .unary id dtype kind operand, member, sweeps => by
      have below := names.operands member
      simp only [Expr.operands, List.forall_mem_singleton] at below
      refine onceValue_turns (names.named member rfl) _ ?_
      refine operand_turns (build_turns names operand below sweeps) fun _ => ?_
      exact (turns_creations made axes).createValue (by rw [UnaryKind.lower_signature]; rfl) _ _ _
  | .binary id dtype kind lhs rhs, member, sweeps => by
      have below := names.operands member
      simp only [Expr.operands, List.forall_mem_cons] at below
      simp only [Expr.swept, List.forall_mem_append] at sweeps
      refine onceValue_turns (names.named member rfl) _ ?_
      refine operand_turns (build_turns names lhs below.1 sweeps.1) fun _ => ?_
      refine operand_turns (build_turns names rhs below.2.1 sweeps.2) fun _ => ?_
      exact (turns_creations made axes).emitBinary _ _ _ _
  | .compare id kind lhs rhs, member, sweeps => by
      have below := names.operands member
      simp only [Expr.operands, List.forall_mem_cons] at below
      simp only [Expr.swept, List.forall_mem_append] at sweeps
      refine onceValue_turns (names.named member rfl) _ ?_
      refine (turns_creations made axes).bind ((turns_creations made axes).valueType lhs) fun _ => ?_
      refine operand_turns (build_turns names lhs below.1 sweeps.1) fun _ => ?_
      refine operand_turns (build_turns names rhs below.2.1 sweeps.2) fun _ => ?_
      exact (turns_creations made axes).emitCompare _ _ _ _
  | .cast id dtype source, member, sweeps => by
      have below := names.operands member
      simp only [Expr.operands, List.forall_mem_singleton] at below
      refine onceValue_turns (names.named member rfl) _ ?_
      refine (turns_creations made axes).bind ((turns_creations made axes).valueType source) fun _ => ?_
      refine operand_turns (build_turns names source below sweeps) fun _ => ?_
      exact (turns_creations made axes).emitCast _ _ _
  | .load id tensor indices, member, _ =>
      onceValue_turns (names.named member rfl) _ ((turns_creations made axes).emitLoad tensor indices)
  | .store id tensor value indices, member, sweeps => by
      have below := names.operands member value (by simp [Expr.operands])
      refine once_turns (names.named member rfl) _ ?_
      refine operand_turns (build_turns names value below sweeps) fun _ => ?_
      exact (turns_creations made axes).bind ((turns_creations made axes).emitStore _ _ _) fun _ =>
        (turns_creations made axes).pure _
  | .select id dtype condition thenValue elseValue, member, sweeps => by
      have below := names.operands member
      simp only [Expr.operands, List.forall_mem_cons] at below
      simp only [Expr.swept, List.forall_mem_append] at sweeps
      refine onceValue_turns (names.named member rfl) _ ?_
      refine operand_turns (build_turns names condition below.1 sweeps.1) fun _ => ?_
      refine operand_turns (build_turns names thenValue below.2.1 sweeps.2.1) fun _ => ?_
      refine operand_turns (build_turns names elseValue below.2.2.1 sweeps.2.2) fun _ => ?_
      exact (turns_creations made axes).createValue rfl _ _ _
  | .call id dtype callee args, member, sweeps => by
      refine once_turns (names.named member rfl) _ ?_
      refine (turns_creations made axes).bind (buildArgs_turns names args (names.operands member) sweeps) ?_
      exact fun _ => (turns_creations made axes).emitCall _ _ _
  | .getBit id value bit, member, sweeps => by
      have below := names.operands member
      simp only [Expr.operands, List.forall_mem_cons] at below
      simp only [Expr.swept, List.forall_mem_append] at sweeps
      refine onceValue_turns (names.named member rfl) _ ?_
      refine operand_turns (build_turns names value below.1 sweeps.1) fun _ => ?_
      refine operand_turns (build_turns names bit below.2.1 sweeps.2) fun _ => ?_
      exact (turns_creations made axes).createValue rfl _ _ _
  | .reduce id dtype kind body list, member, sweeps => by
      have below := names.operands member
      simp only [Expr.operands, List.forall_mem_cons] at below
      simp only [Expr.swept, List.forall_mem_append] at sweeps
      rw [build_reduce]
      refine onceValue_turns (names.named member rfl) _ ?_
      refine (turns_creations made axes).bind (fun _ => Turns.of_quiet ⟨rfl, rfl, rfl⟩) fun _ => ?_
      refine (turns_creations made axes).bind ((turns_creations made axes).openAccumulator kind dtype) ?_
      intro acc
      refine (turns_creations made axes).bind ?_ fun _ =>
        (turns_creations made axes).accumulatorLoad acc
      refine inRegion_turns (reduceNest_turns acc kind dtype
        (openAxes_turns names list below.2 sweeps.1) ?_)
      exact (build_turns names body below.1 sweeps.2).mono fun _ _ turns =>
        turns.mono (fun _ => .inl) fun _ axis => axis

/-- So does building a bound. -/
theorem buildBound_turns (names : Names nodes made) : ∀ bound : Bound, (∀ expr ∈ bound.exprs, nodes expr) →
    (∀ id ∈ bound.swept, axes id) → Keeps (Turns made axes) (buildBound bound)
  | .const value, _, _ => (turns_creations made axes).pure _
  | .expr value, members, sweeps => by
      have creations := turns_creations made axes
      refine creations.bind (creations.valueType value) fun dtype => ?_
      dsimp only
      split
      · exact creations.throw_bind _ _
      refine operand_turns (build_turns names value (members value (by simp [Bound.exprs])) sweeps) ?_
      intro built
      exact creations.bind (creations.emitCast _ _ _) fun _ => creations.pure _

/-- Opening the loops of axes binds the axes too. -/
theorem openAxes_turns (names : Names nodes made) : ∀ list : List Expr, (∀ axis ∈ list, nodes axis) →
    (∀ id ∈ sweptAxes list, axes id) →
    Keeps (Turns (fun id => made id ∨ axes id) axes) (openAxes list)
  | [], _, _ => (Turns.chains _ axes).pure ()
  | .axis id name lower upper :: rest, members, sweeps => by
      have chains := Turns.chains (fun id => made id ∨ axes id) axes
      have bounds := names.bounds (members (.axis id name lower upper) (by simp))
      simp only [Expr.bounds, List.forall_mem_append] at bounds
      simp only [sweptAxes, List.forall_mem_cons, List.forall_mem_append] at sweeps
      obtain ⟨swept, low, high, others⟩ := sweeps
      rw [openAxes]
      refine chains.bind ((buildBound_turns names lower bounds.1 low).mono fun _ _ turns =>
        turns.mono (fun _ => .inl) fun _ axis => axis) fun _ => ?_
      refine chains.bind ((buildBound_turns names upper bounds.2 high).mono fun _ _ turns =>
        turns.mono (fun _ => .inl) fun _ axis => axis) fun _ => ?_
      refine chains.bind (turns_of_quiet (emitLoop_quiet _ _ _)) fun header => ?_
      refine chains.bind (fun context => (chains.refl context).bind _ (.inr swept) (.inr swept)) ?_
      intro _
      refine chains.bind (fun _ => Turns.of_quiet ⟨rfl, rfl, rfl⟩) fun _ => ?_
      exact openAxes_turns names rest (fun axis listed => members axis (by simp [listed])) others
  | .constant .. :: _, _, _ | .loopVar .. :: _, _, _ | .unary .. :: _, _, _
  | .binary .. :: _, _, _ | .compare .. :: _, _, _ | .cast .. :: _, _, _ | .load .. :: _, _, _
  | .store .. :: _, _, _ | .select .. :: _, _, _ | .call .. :: _, _, _ | .getBit .. :: _, _, _
  | .reduce .. :: _, _, _ => (Turns.chains _ axes).throw _

/-- Building the arguments of a call turns the axes that they sweep. -/
theorem buildArgs_turns (names : Names nodes made) : ∀ args : List CallArg, (∀ expr ∈ CallArg.exprs args, nodes expr) →
    (∀ id ∈ sweptArgs args, axes id) → Keeps (Turns made axes) (buildArgs args)
  | [], _, _ => (turns_creations made axes).pure _
  | .expr value :: rest, members, sweeps => by
      simp only [CallArg.exprs, List.forall_mem_cons] at members
      simp only [sweptArgs, List.forall_mem_append] at sweeps
      refine operand_turns (build_turns names value members.1 sweeps.1) fun _ => ?_
      exact (turns_creations made axes).bind (buildArgs_turns names rest members.2 sweeps.2) fun _ =>
        (turns_creations made axes).pure _
  | .tensor tensor :: rest, members, sweeps => by
      refine (turns_creations made axes).bind ((turns_creations made axes).storageOf tensor) fun _ => ?_
      exact (turns_creations made axes).bind (buildArgs_turns names rest members sweeps) fun _ =>
        (turns_creations made axes).pure _

end

end Nodes

/-- After the nest of a reduction, whether it has failed or not, every node is bound as before; or
it is an axis of the nest or of a reduction in it, and is not bound. -/
theorem nest_restores (acc : Accumulator) (kind : ReduceKind) (dtype : DType) (body : Expr)
    (list : List Expr) (context : Context) :
    Ensures (inRegion (reduceNest acc kind dtype body list)) context
      (fun _ after => ∀ id, after.binding? id = context.binding? id ∨
        id ∈ sweptAxes list ++ body.swept ∧ after.binding? id = none)
      (fun after => ∀ id, after.binding? id = context.binding? id ∨
        id ∈ sweptAxes list ++ body.swept ∧ after.binding? id = none) := by
  have names : Names (fun _ => True) (fun _ => True) :=
    ⟨fun _ _ _ => trivial, fun _ _ _ => trivial, fun _ _ => trivial⟩
  have turns : Keeps (Turns (fun id => True ∨ id ∈ sweptAxes list ++ body.swept)
      (· ∈ sweptAxes list ++ body.swept)) (reduceNest acc kind dtype body list) := by
    refine reduceNest_turns acc kind dtype
      (openAxes_turns names list (fun _ _ => trivial) fun id => List.mem_append_left _) ?_
    exact (build_turns names body trivial fun id => List.mem_append_right _).mono
      fun _ _ turns => turns.mono (fun _ => .inl) fun _ axis => axis
  rw [ensures_inRegion]
  exact (turns _).mono (fun _ _ inside => inside.binding?_leave)
    fun _ inside => inside.binding?_leave

end BuildM

/-! ## Swept axes are axes -/

namespace Pool

variable {pool : Pool} {next : NodeId}

/-- A node of the pool that is an axis. -/
def Axis (pool : Pool) (id : NodeId) : Prop :=
  ∃ expr, pool.expr expr ∧ expr.id = id ∧ expr.isAxis = true

/-- A node of the pool that is no axis. -/
def Plain (pool : Pool) (id : NodeId) : Prop :=
  ∃ expr, pool.expr expr ∧ expr.id = id ∧ expr.isAxis = false

theorem Sound.not_plain (sound : pool.Sound next) {id : NodeId} (axis : pool.Axis id) :
    ¬ pool.Plain id := by
  rintro ⟨expr, member, rfl, plain⟩
  obtain ⟨other, inside, same, swept⟩ := axis
  obtain rfl := sound.unique inside member same
  rw [plain] at swept
  cases swept

theorem Sound.names (sound : pool.Sound next) : BuildM.Names pool.expr pool.Plain where
  operands member := sound.operands member
  bounds member := (sound.accepts member).bounds
  named member plain := ⟨_, member, rfl, plain⟩

mutual

theorem swept_axis (sound : pool.Sound next) : ∀ expr : Expr, pool.expr expr →
    ∀ id ∈ expr.swept, pool.Axis id
  | .constant .., _ | .loopVar .., _ | .axis .., _ | .load .., _ => by simp [Expr.swept]
  | .unary _ _ _ operand, member => by
      have below := sound.operands member
      simp only [Expr.operands, List.forall_mem_cons] at below
      exact swept_axis sound operand below.1
  | .cast _ _ source, member => by
      have below := sound.operands member
      simp only [Expr.operands, List.forall_mem_cons] at below
      exact swept_axis sound source below.1
  | .store _ _ value _, member => by
      have below := sound.operands member
      simp only [Expr.operands, List.forall_mem_cons] at below
      exact swept_axis sound value below.1
  | .binary _ _ _ lhs rhs, member => by
      have below := sound.operands member
      simp only [Expr.operands, List.forall_mem_cons] at below
      simp only [Expr.swept, List.forall_mem_append]
      exact ⟨swept_axis sound lhs below.1, swept_axis sound rhs below.2.1⟩
  | .compare _ _ lhs rhs, member => by
      have below := sound.operands member
      simp only [Expr.operands, List.forall_mem_cons] at below
      simp only [Expr.swept, List.forall_mem_append]
      exact ⟨swept_axis sound lhs below.1, swept_axis sound rhs below.2.1⟩
  | .getBit _ value bit, member => by
      have below := sound.operands member
      simp only [Expr.operands, List.forall_mem_cons] at below
      simp only [Expr.swept, List.forall_mem_append]
      exact ⟨swept_axis sound value below.1, swept_axis sound bit below.2.1⟩
  | .select _ _ condition thenValue elseValue, member => by
      have below := sound.operands member
      simp only [Expr.operands, List.forall_mem_cons] at below
      simp only [Expr.swept, List.forall_mem_append]
      exact ⟨swept_axis sound condition below.1, swept_axis sound thenValue below.2.1,
        swept_axis sound elseValue below.2.2.1⟩
  | .call _ _ _ args, member => sweptArgs_axis sound args (sound.operands member)
  | .reduce _ _ _ body axes, member => by
      have below := sound.operands member
      simp only [Expr.operands, List.forall_mem_cons] at below
      simp only [Expr.swept, List.forall_mem_append]
      exact ⟨sweptAxes_axis sound axes below.2, swept_axis sound body below.1⟩

theorem sweptBound_axis (sound : pool.Sound next) : ∀ bound : Bound,
    (∀ expr ∈ bound.exprs, pool.expr expr) → ∀ id ∈ bound.swept, pool.Axis id
  | .const _, _ => by simp [Bound.swept]
  | .expr value, members => swept_axis sound value (members value (by simp [Bound.exprs]))

theorem sweptAxes_axis (sound : pool.Sound next) : ∀ axes : List Expr,
    (∀ axis ∈ axes, pool.expr axis) → ∀ id ∈ sweptAxes axes, pool.Axis id
  | [], _ => by simp [sweptAxes]
  | .axis id name lower upper :: rest, members => by
      have member := members (.axis id name lower upper) (by simp)
      have bounds := (sound.accepts member).bounds
      simp only [Expr.bounds, List.forall_mem_append] at bounds
      simp only [sweptAxes, List.forall_mem_cons, List.forall_mem_append]
      exact ⟨⟨_, member, rfl, rfl⟩, sweptBound_axis sound lower bounds.1,
        sweptBound_axis sound upper bounds.2,
        sweptAxes_axis sound rest fun axis listed => members axis (by simp [listed])⟩
  | .constant .. :: _, _ | .loopVar .. :: _, _ | .unary .. :: _, _ | .binary .. :: _, _
  | .compare .. :: _, _ | .cast .. :: _, _ | .load .. :: _, _ | .store .. :: _, _
  | .select .. :: _, _ | .call .. :: _, _ | .getBit .. :: _, _ | .reduce .. :: _, _ => by
      simp [sweptAxes]

theorem sweptArgs_axis (sound : pool.Sound next) : ∀ args : List CallArg,
    (∀ expr ∈ CallArg.exprs args, pool.expr expr) → ∀ id ∈ sweptArgs args, pool.Axis id
  | [], _ => by simp [sweptArgs]
  | .expr value :: rest, members => by
      simp only [CallArg.exprs, List.forall_mem_cons] at members
      simp only [sweptArgs, List.forall_mem_append]
      exact ⟨swept_axis sound value members.1, sweptArgs_axis sound rest members.2⟩
  | .tensor _ :: rest, members => sweptArgs_axis sound rest members

end

end Pool

end AffineKernel
