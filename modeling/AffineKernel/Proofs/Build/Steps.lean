import AffineKernel.Build.Materialize
import AffineKernel.Proofs.Build.Outcome
import AffineKernel.Proofs.IR.Signature

/-!
# The steps of building

Building a node takes steps of four kinds. It logs an event, creates an operation
that neither owns a region nor ends one, binds a node, or runs the nest of a
reduction as a region of its own. Everything below the nodes only logs and
creates, so it leads along any two relations that these two steps lead along
(`BuildM.Creations`). If bindings and nests lead along them as well
(`BuildM.Steps`, `BuildM.Building`), then building any node does
(`BuildM.Building.build`). So a property of building is proved by looking at a
creation and at the nest; the recursion over nodes is done here.

What the nest does is left to the property, as it depends on how the property
treats the insertion points of the open loops. The nest may build the reduced
expression and the bounds of its axes, and these are known to lead along the
relations already.
-/

set_option autoImplicit false

namespace AffineKernel

/-! ## Signatures of lowered operators -/

theorem BinaryKind.lower_signature {kind : BinaryKind} {dtype : DType} {op : OpKind}
    (lowered : kind.lower dtype = .ok op) : op.signature = .arithmetic dtype.category := by
  cases sort : dtype.category <;> cases kind <;>
    simp only [BinaryKind.lower, sort] at lowered <;> cases lowered <;> try rfl
  all_goals split <;> rfl

theorem UnaryKind.lower_signature (kind : UnaryKind) : kind.lower.signature = .function := by
  cases kind <;> rfl

theorem OpKind.compareFor_signature (category : Category) :
    (compareFor category).signature = .comparison category := by
  cases category <;> rfl

theorem castKind_signature (source target : DType) : (castKind source target).signature = .cast := by
  unfold castKind
  split <;> rfl

theorem ReduceKind.combine_signature (kind : ReduceKind) (dtype : DType) :
    (kind.combine dtype).signature = .arithmetic dtype.category := by
  cases sort : dtype.category <;> cases kind <;> simp only [ReduceKind.combine, sort] <;> try rfl
  all_goals split <;> rfl

namespace BuildM

/-- What a reduction does inside its region. -/
def reduceNest (acc : Accumulator) (kind : ReduceKind) (dtype : DType) (body : Expr)
    (axes : List Expr) : BuildM Unit := do
  openAxes axes
  let actual ← valueType body
  if actual ≠ dtype then throw (.reductionType dtype actual)
  let data ← needValue body.name (← build body)
  let current ← acc.load
  let combined ← createValue (kind.combine dtype) [data, current] (.scalar dtype) []
  acc.store combined
  closeLoops axes.length

/-- What is done in the innermost body of a reduction. -/
def Accumulator.step (acc : Accumulator) (kind : ReduceKind) (dtype : DType) (body : Expr) :
    BuildM Unit := do
  let actual ← valueType body
  if actual ≠ dtype then throw (.reductionType dtype actual)
  let data ← needValue body.name (← build body)
  let current ← acc.load
  let combined ← createValue (kind.combine dtype) [data, current] (.scalar dtype) []
  acc.store combined

/-- A nest opens its loops, does its step in the innermost body, and closes the loops. -/
theorem reduceNest_eq (acc : Accumulator) (kind : ReduceKind) (dtype : DType) (body : Expr)
    (axes : List Expr) :
    reduceNest acc kind dtype body axes = (do
      openAxes axes
      acc.step kind dtype body
      closeLoops axes.length) := by
  simp only [reduceNest, Accumulator.step, bind_assoc]
  refine congrArg _ (funext fun _ => congrArg _ (funext fun actual => ?_))
  split <;> simp [bind_assoc]

theorem build_reduce (id : NodeId) (dtype : DType) (kind : ReduceKind) (body : Expr)
    (axes : List Expr) :
    build (.reduce id dtype kind body axes) = onceValue id "reduce" (do
      emit (.synthesizeReduction kind dtype axes.length)
      let acc ← openAccumulator kind dtype
      inRegion (reduceNest acc kind dtype body axes)
      acc.load) := by
  rw [build]
  rfl

/-- Building the bounds of an axis leads along two relations. -/
def AxisLeads (done failed : Context → Context → Prop) : Expr → Prop
  | .axis _ _ lower upper =>
    Leads done failed (buildBound lower) ∧ Leads done failed (buildBound upper)
  | _ => True

/-- Relations along which single steps of building lead that bind no node: the first one if all goes
well, the second one if a step fails. -/
structure Creations (done failed : Context → Context → Prop) : Prop
    extends Courses done failed where
  log : ∀ (context : Context) (event : Event), done context (context.emit event)
  create : ∀ {draft : OpDraft}, draft.kind.signature.isPlain = true → draft.regions = [] →
    Leads done failed (BuildM.create draft)

/-- Relations along which bindings lead, too. -/
structure Steps (done failed : Context → Context → Prop) : Prop extends Creations done failed where
  bindNode : ∀ (context : Context) (id : NodeId) (binding : Binding),
    done context (context.bind id binding)

/-- Relations along which nests lead, too, if building what is below them does. -/
structure Building (done failed : Context → Context → Prop) : Prop extends Steps done failed where
  nest : ∀ (acc : Accumulator) (kind : ReduceKind) (dtype : DType) (body : Expr)
    (axes : List Expr), Leads done failed (BuildM.build body) →
    (∀ axis ∈ axes, AxisLeads done failed axis) →
    Leads done failed (inRegion (reduceNest acc kind dtype body axes))

variable {done failed : Context → Context → Prop}

namespace Creations

variable (creations : Creations done failed)
include creations

/-! ## Operations -/

theorem createValue {kind : OpKind} (plain : kind.signature.isPlain = true)
    (operands : List Value) (type : ValueType) (attributes : List (String × Attribute)) :
    Leads done failed (BuildM.createValue kind operands type attributes) :=
  creations.bind (creations.create plain rfl) fun _ => creations.pure _

theorem emitCast (value : Value) (source target : DType) :
    Leads done failed (BuildM.emitCast value source target) := by
  rw [BuildM.emitCast]
  split
  · exact creations.pure value
  · exact creations.createValue (by rw [castKind_signature]; rfl) _ _ _

theorem emitBinary (kind : BinaryKind) (dtype : DType) (lhs rhs : Value) :
    Leads done failed (BuildM.emitBinary kind dtype lhs rhs) := by
  intro context
  rw [BuildM.emitBinary, ensures_bind]
  refine ensures_liftExcept (fun op lowered => ?_) (creations.halt context)
  have plain : op.signature.isPlain = true := by
    rw [BinaryKind.lower_signature lowered]
    rfl
  refine creations.bind (creations.createValue plain _ _ _) (fun result => ?_) context
  split
  · exact creations.createValue rfl _ _ _
  · exact creations.pure result

theorem emitCompare (kind : Comparison) (dtype : DType) (lhs rhs : Value) :
    Leads done failed (BuildM.emitCompare kind dtype lhs rhs) :=
  creations.createValue (by rw [OpKind.compareFor_signature]; rfl) _ _ _

/-! ## Accesses -/

theorem storageOf (tensor : Tensor) : Leads done failed (BuildM.storageOf tensor) := by
  refine Leads.get_bind fun context => ?_
  split
  · exact creations.pure _
  · exact creations.throw _

theorem loopValue (ref : LoopRef) : Leads done failed (BuildM.loopValue ref) := by
  refine Leads.get_bind fun context => ?_
  split
  · exact creations.pure _
  · exact creations.throw _

theorem affineAccess (indices : List Expr) : Leads done failed (BuildM.affineAccess indices) := by
  rw [BuildM.affineAccess]
  split
  · exact creations.throw _
  · refine creations.bind (fun context => creations.log context _) fun _ => ?_
    exact creations.bind (creations.mapM creations.loopValue _) fun _ => creations.pure _

theorem emitLoad (tensor : Tensor) (indices : List Expr) :
    Leads done failed (BuildM.emitLoad tensor indices) :=
  creations.bind (creations.storageOf tensor) fun _ =>
    creations.bind (creations.affineAccess indices) fun _ => creations.createValue rfl _ _ _

theorem emitStore (value : Value) (tensor : Tensor) (indices : List Expr) :
    Leads done failed (BuildM.emitStore value tensor indices) :=
  creations.bind (creations.storageOf tensor) fun _ =>
    creations.bind (creations.affineAccess indices) fun _ => creations.create rfl rfl

theorem emitCall (dtype : Option DType) (callee : String) (args : List Value) :
    Leads done failed (BuildM.emitCall dtype callee args) :=
  creations.bind (creations.create rfl rfl) fun _ => creations.pure _

/-! ## Accumulators -/

theorem accumulatorLoad (acc : Accumulator) : Leads done failed acc.load :=
  creations.createValue rfl _ _ _

theorem accumulatorStore (acc : Accumulator) (value : Value) :
    Leads done failed (acc.store value) :=
  creations.bind (creations.create rfl rfl) fun _ => creations.pure _

theorem openAccumulator (kind : ReduceKind) (dtype : DType) :
    Leads done failed (BuildM.openAccumulator kind dtype) :=
  creations.bind (creations.createValue rfl _ _ _) fun _ =>
    creations.bind (creations.createValue rfl _ _ _) fun _ =>
      creations.bind (creations.createValue rfl _ _ _) fun _ =>
        creations.bind (creations.accumulatorStore _ _) fun _ => creations.pure _

/-! ## Nodes -/

theorem needValue (name : String) (binding : Binding) :
    Leads done failed (BuildM.needValue name binding) := by
  cases binding with
  | value value => exact creations.pure value
  | op id => exact creations.throw _

theorem accumulatorStep (acc : Accumulator) (kind : ReduceKind) (dtype : DType) {body : Expr}
    (built : Leads done failed (BuildM.build body)) :
    Leads done failed (acc.step kind dtype body) := by
  refine creations.bind (creations.valueType body) fun actual => ?_
  dsimp only
  split
  · exact creations.throw_bind _ _
  refine creations.bind built fun _ => ?_
  refine creations.bind (creations.needValue _ _) fun data => ?_
  refine creations.bind (creations.accumulatorLoad acc) fun current => ?_
  refine creations.bind ?_ fun combined => creations.accumulatorStore acc combined
  exact creations.createValue (by rw [ReduceKind.combine_signature]; rfl) _ _ _

end Creations

namespace Steps

variable (steps : Steps done failed)
include steps

theorem once (id : NodeId) (name : String) {action : BuildM Binding}
    (leads : Leads done failed action) : Leads done failed (BuildM.once id name action) := by
  refine Leads.get_bind fun context => ?_
  split
  · exact steps.pure _
  · refine steps.bind (fun context => steps.log context _) fun _ => ?_
    refine steps.bind leads fun binding => ?_
    exact steps.bind (fun context => steps.bindNode context _ _) fun _ => steps.pure _

theorem onceValue (id : NodeId) (name : String) {action : BuildM Value}
    (leads : Leads done failed action) : Leads done failed (BuildM.onceValue id name action) :=
  steps.once id name (leads.map Binding.value)

end Steps

namespace Building

mutual

/-- Building a node leads along the relations. -/
theorem build (building : Building done failed) : ∀ expr : Expr,
    Leads done failed (BuildM.build expr)
  | .constant id dtype value => by
      rw [BuildM.build]
      exact building.onceValue _ _ (building.createValue rfl _ _ _)
  | .loopVar id name | .axis id name _ _ => by
      rw [BuildM.build]
      exact building.onceValue _ _ (building.throw _)
  | .unary id dtype kind operand => by
      rw [BuildM.build]
      refine building.onceValue _ _ (building.bind (building.build operand) fun _ => ?_)
      refine building.bind (building.needValue _ _) fun _ => ?_
      exact building.createValue (by rw [UnaryKind.lower_signature]; rfl) _ _ _
  | .binary id dtype kind lhs rhs => by
      rw [BuildM.build]
      refine building.onceValue _ _ (building.bind (building.build lhs) fun _ => ?_)
      refine building.bind (building.needValue _ _) fun _ => ?_
      refine building.bind (building.build rhs) fun _ => ?_
      exact building.bind (building.needValue _ _) fun _ => building.emitBinary _ _ _ _
  | .compare id kind lhs rhs => by
      rw [BuildM.build]
      refine building.onceValue _ _ (building.bind (building.valueType lhs) fun _ => ?_)
      refine building.bind (building.build lhs) fun _ => ?_
      refine building.bind (building.needValue _ _) fun _ => ?_
      refine building.bind (building.build rhs) fun _ => ?_
      exact building.bind (building.needValue _ _) fun _ => building.emitCompare _ _ _ _
  | .cast id dtype source => by
      rw [BuildM.build]
      refine building.onceValue _ _ (building.bind (building.valueType source) fun _ => ?_)
      refine building.bind (building.build source) fun _ => ?_
      exact building.bind (building.needValue _ _) fun _ => building.emitCast _ _ _
  | .load id tensor indices => by
      rw [BuildM.build]
      exact building.onceValue _ _ (building.emitLoad tensor indices)
  | .store id tensor value indices => by
      rw [BuildM.build]
      refine building.once _ _ (building.bind (building.build value) fun _ => ?_)
      refine building.bind (building.needValue _ _) fun _ => ?_
      exact building.bind (building.emitStore _ _ _) fun _ => building.pure _
  | .select id dtype condition thenValue elseValue => by
      rw [BuildM.build]
      refine building.onceValue _ _ (building.bind (building.build condition) fun _ => ?_)
      refine building.bind (building.needValue _ _) fun _ => ?_
      refine building.bind (building.build thenValue) fun _ => ?_
      refine building.bind (building.needValue _ _) fun _ => ?_
      refine building.bind (building.build elseValue) fun _ => ?_
      exact building.bind (building.needValue _ _) fun _ => building.createValue rfl _ _ _
  | .call id dtype callee args => by
      rw [BuildM.build]
      exact building.once _ _ (building.bind (building.buildArgs args) fun _ =>
        building.emitCall _ _ _)
  | .getBit id value bit => by
      rw [BuildM.build]
      refine building.onceValue _ _ (building.bind (building.build value) fun _ => ?_)
      refine building.bind (building.needValue _ _) fun _ => ?_
      refine building.bind (building.build bit) fun _ => ?_
      exact building.bind (building.needValue _ _) fun _ => building.createValue rfl _ _ _
  | .reduce id dtype kind body axes => by
      rw [build_reduce]
      refine building.onceValue _ _ (building.bind (fun context => building.log context _) ?_)
      intro _
      refine building.bind (building.openAccumulator kind dtype) fun acc => ?_
      have nest := building.nest acc kind dtype body axes (building.build body)
        (building.axesLead axes)
      exact building.bind nest fun _ => building.accumulatorLoad acc

/-- So does building a bound of a loop. -/
theorem buildBound (building : Building done failed) : ∀ bound : Bound,
    Leads done failed (BuildM.buildBound bound)
  | .const value => by
      rw [BuildM.buildBound]
      exact building.pure _
  | .expr value => by
      rw [BuildM.buildBound]
      refine building.bind (building.valueType value) fun dtype => ?_
      dsimp only
      split
      · exact building.throw_bind _ _
      refine building.bind (building.build value) fun _ => ?_
      refine building.bind (building.needValue _ _) fun _ => ?_
      exact building.bind (building.emitCast _ _ _) fun _ => building.pure _

theorem axesLead (building : Building done failed) : ∀ axes : List Expr, ∀ axis ∈ axes,
    AxisLeads done failed axis
  | [] => by simp
  | .axis id name lower upper :: rest => by
      intro axis member
      rcases List.mem_cons.mp member with rfl | later
      · exact ⟨building.buildBound lower, building.buildBound upper⟩
      · exact building.axesLead rest axis later
  | .constant .. :: rest | .loopVar .. :: rest | .unary .. :: rest | .binary .. :: rest
  | .compare .. :: rest | .cast .. :: rest | .load .. :: rest | .store .. :: rest
  | .select .. :: rest | .call .. :: rest | .getBit .. :: rest | .reduce .. :: rest => by
      intro axis member
      rcases List.mem_cons.mp member with rfl | later
      · trivial
      · exact building.axesLead rest axis later

/-- So does building the arguments of a call. -/
theorem buildArgs (building : Building done failed) : ∀ args : List CallArg,
    Leads done failed (BuildM.buildArgs args)
  | [] => by
      rw [BuildM.buildArgs]
      exact building.pure _
  | .expr value :: rest => by
      rw [BuildM.buildArgs]
      refine building.bind (building.build value) fun _ => ?_
      refine building.bind (building.needValue _ _) fun _ => ?_
      exact building.bind (building.buildArgs rest) fun _ => building.pure _
  | .tensor tensor :: rest => by
      rw [BuildM.buildArgs]
      refine building.bind (building.storageOf tensor) fun _ => ?_
      exact building.bind (building.buildArgs rest) fun _ => building.pure _

end

theorem buildValue (building : Building done failed) (expr : Expr) :
    Leads done failed (BuildM.buildValue expr) :=
  building.bind (building.build expr) fun _ => building.needValue _ _

end Building

end BuildM

end AffineKernel
