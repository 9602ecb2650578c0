import AffineKernel.Build.Indexing
import AffineKernel.Proofs.Build.Outcome

/-!
# What constructors do to a context

A node constructor checks types, reports casts, takes a fresh identity and
perhaps builds the node. So a relation between contexts holds across every
constructor as soon as it holds across these steps (`BuildM.Steady`). There is
one lemma for each constructor, and none of them looks at the relation. A
relation that building keeps anyway is kept by constructors in both modes
(`BuildM.Firm`).
-/

set_option autoImplicit false

namespace AffineKernel.BuildM

/-- A relation that the steps of a constructor keep. -/
structure Steady (relates : Context → Context → Prop) : Prop extends Chains relates where
  log : ∀ (context : Context) (events : Array Event), relates context { context with log := events }
  freshId : ∀ context : Context, relates context { context with nextId := context.nextId + 1 }
  finish : ∀ node : NodeId → Expr, Keeps relates (finish node)

namespace Steady

variable {relates : Context → Context → Prop} (steady : Steady relates)
include steady

theorem constant (value : Literal) (dtype : DType) :
    Keeps relates (BuildM.constant value dtype) :=
  steady.bind (steady.checkType dtype) fun _ => steady.finish _

theorem axis (lower upper : Bound) (name : String) :
    Keeps relates (BuildM.axis lower upper name) :=
  steady.bind steady.freshId fun _ => steady.pure _

/-! ## Casts -/

theorem castNode (expr : Expr) (target : DType) : Keeps relates (BuildM.castNode expr target) := by
  refine steady.bind (steady.valueType expr) fun source => ?_
  split
  · exact steady.pure expr
  · exact steady.finish _

theorem implicitCast (expr : Expr) (target : DType) :
    Keeps relates (BuildM.implicitCast expr target) := by
  refine steady.bind (steady.valueType expr) fun source => ?_
  split
  · exact steady.pure expr
  · exact steady.bind (fun context => steady.log context _) fun _ => steady.castNode expr target

theorem cast {operand : BuildM Expr} (made : Keeps relates operand) (dtype : DType) :
    Keeps relates (BuildM.cast operand dtype) :=
  steady.bind (steady.checkType dtype) fun _ =>
    steady.bind made fun expr => steady.castNode expr dtype

theorem castBoth (lhs rhs : Expr) (types : DType × DType) :
    Keeps relates (BuildM.castBoth lhs rhs types) :=
  steady.bind (steady.implicitCast lhs _) fun _ =>
    steady.bind (steady.implicitCast rhs _) fun _ => steady.pure _

theorem promote (lhs rhs : Expr) : Keeps relates (BuildM.promote lhs rhs) :=
  steady.bind (steady.valueType lhs) fun _ =>
    steady.bind (steady.valueType rhs) fun _ =>
      steady.bind (steady.liftExcept _) fun types => steady.castBoth lhs rhs types

theorem promoteBits (kind : BinaryKind) (lhs rhs : Expr) :
    Keeps relates (BuildM.promoteBits kind lhs rhs) :=
  steady.bind (steady.valueType lhs) fun _ =>
    steady.bind (steady.valueType rhs) fun _ =>
      steady.bind (steady.liftExcept _) fun types => steady.castBoth lhs rhs types

/-! ## Operators -/

theorem binary (kind : BinaryKind) (lhs rhs : Expr) :
    Keeps relates (BuildM.binary kind lhs rhs) := by
  have recorded : ∀ operands : Expr × Expr, Keeps relates (do
      let dtype ← BuildM.valueType operands.1
      if dtype.isFixed ∧ (kind = .floorDiv ∨ kind = .rem) then
        throw (.unsupportedOperation kind.name dtype)
      BuildM.finish fun id => .binary id dtype kind operands.1 operands.2) := by
    intro operands
    refine steady.bind (steady.valueType operands.1) fun dtype => ?_
    dsimp only
    split
    · exact steady.throw_bind _ _
    · exact steady.finish _
  rw [BuildM.binary]
  split
  · exact steady.bind (steady.promoteBits kind lhs rhs) recorded
  · exact steady.bind (steady.promote lhs rhs) recorded

theorem compare (kind : Comparison) (lhs rhs : Expr) :
    Keeps relates (BuildM.compare kind lhs rhs) :=
  steady.bind (steady.promote lhs rhs) fun _ => steady.finish _

theorem neg (operand : Expr) : Keeps relates (BuildM.neg operand) := by
  refine steady.bind (steady.valueType operand) fun dtype => ?_
  dsimp only
  split
  · exact steady.throw_bind _ _
  split
  · exact steady.finish _
  · exact steady.bind (steady.constant _ _) fun zero => steady.binary _ zero operand

theorem unary (kind : UnaryKind) (operand : Expr) :
    Keeps relates (BuildM.unary kind operand) := by
  rw [BuildM.unary]
  split
  · exact steady.neg operand
  · exact steady.bind (steady.implicitCast operand _) fun _ => steady.finish _

theorem select (condition thenValue elseValue : Expr) :
    Keeps relates (BuildM.select condition thenValue elseValue) := by
  refine steady.bind (steady.valueType condition) fun conditionType => ?_
  dsimp only
  split
  · exact steady.throw_bind _ _
  refine steady.bind (steady.valueType thenValue) fun thenType => ?_
  refine steady.bind (steady.valueType elseValue) fun elseType => ?_
  split
  · exact steady.throw_bind _ _
  · exact steady.finish _

theorem call (callee : String) (args : List CallArg) (dtype : Option DType) :
    Keeps relates (BuildM.call callee args dtype) := by
  cases dtype with
  | none => exact steady.finish _
  | some result => exact steady.bind (steady.checkType result) fun _ => steady.finish _

theorem getBit (value bit : Expr) : Keeps relates (BuildM.getBit value bit) := by
  refine steady.bind (steady.valueType value) fun valueType => ?_
  dsimp only
  split
  · exact steady.throw_bind _ _
  refine steady.bind (steady.valueType bit) fun bitType => ?_
  split
  · exact steady.throw_bind _ _
  · exact steady.bind (steady.implicitCast bit _) fun _ => steady.finish _

theorem reduceInto (kind : ReduceKind) (body : Expr) (axes : List Expr) (dtype : DType) :
    Keeps relates (BuildM.reduceInto kind body axes dtype) :=
  steady.bind (steady.checkType dtype) fun _ => steady.finish _

theorem reduce (kind : ReduceKind) (body : Expr) (axes : List Expr) :
    Keeps relates (BuildM.reduce kind body axes) :=
  steady.bind (steady.valueType body) fun dtype => steady.reduceInto kind body axes dtype

/-! ## Indexing -/

theorem indexExpr (arg : IndexArg) : Keeps relates (BuildM.indexExpr arg) := by
  cases arg with
  | expr value => exact steady.pure value
  | const value => exact steady.constant _ _

theorem checkRank (tensor : Tensor) (given : Nat) :
    Keeps relates (BuildM.checkRank tensor given) := by
  rw [BuildM.checkRank]
  split
  · exact steady.throw _
  · exact steady.pure ()

theorem indexSlice (slice : Slice) (args : List IndexArg) :
    Keeps relates (BuildM.indexSlice slice args) := by
  refine steady.bind (steady.checkRank _ _) fun _ => ?_
  refine steady.bind (steady.mapM steady.indexExpr args) fun indices => ?_
  dsimp only
  split
  · exact steady.pure _
  · exact steady.bind (steady.finish _) fun _ => steady.pure _

theorem index (tensor : Tensor) (args : List IndexArg) :
    Keeps relates (BuildM.index tensor args) := steady.indexSlice _ args

theorem load (tensor : Tensor) (args : List IndexArg) :
    Keeps relates (BuildM.load tensor args) := by
  refine steady.bind (steady.index tensor args) fun indexed => ?_
  cases indexed with
  | slice slice => exact steady.throw _
  | load expr => exact steady.pure expr

theorem storedValue (tensor : Tensor) (value : Expr) :
    Keeps relates (BuildM.storedValue tensor value) := by
  refine steady.bind (steady.valueType value) fun dtype => ?_
  split
  · exact steady.pure value
  · exact steady.bind (fun context => steady.log context _) fun _ => steady.castNode value _

theorem storeSlice {value : BuildM Expr} (made : Keeps relates value) (slice : Slice)
    (args : List IndexArg) : Keeps relates (BuildM.storeSlice value slice args) := by
  refine steady.bind (steady.checkRank _ _) fun _ => ?_
  dsimp only
  split
  · exact steady.throw_bind _ _
  refine steady.bind made fun expr => ?_
  refine steady.bind (steady.storedValue _ expr) fun stored => ?_
  exact steady.bind (steady.mapM steady.indexExpr args) fun _ => steady.finish _

theorem store {value : BuildM Expr} (made : Keeps relates value) (tensor : Tensor)
    (args : List IndexArg) : Keeps relates (BuildM.store value tensor args) :=
  steady.storeSlice made _ args

theorem scalarIndices (tensor : Tensor) : Keeps relates (BuildM.scalarIndices tensor) := by
  rw [BuildM.scalarIndices]
  split
  · exact steady.pure _
  · exact steady.throw _

theorem scalar (tensor : Tensor) : Keeps relates (BuildM.scalar tensor) :=
  steady.bind (steady.scalarIndices tensor) fun args => steady.load tensor args

theorem setScalar {value : BuildM Expr} (made : Keeps relates value) (tensor : Tensor) :
    Keeps relates (BuildM.setScalar value tensor) :=
  steady.bind (steady.scalarIndices tensor) fun args => steady.store made tensor args

theorem bit (load : Expr) (args : List IndexArg) : Keeps relates (BuildM.bit load args) := by
  simp only [BuildM.bit]
  by_cases isLoad : load.isLoad
  case neg =>
    simp only [isLoad]
    exact steady.throw_bind _ _
  by_cases isInt : load.dtype?.any DType.isInt
  case neg =>
    simp only [isLoad, isInt]
    exact steady.throw_bind _ _
  simp only [isLoad, isInt, Bool.not_true, Bool.false_eq_true, ↓reduceIte]
  split
  · exact steady.bind (steady.indexExpr _) fun bit => steady.getBit load bit
  · exact steady.throw _

theorem placeholder (name : String) (shape : List Nat) (dtype : DType) :
    Keeps relates (BuildM.placeholder name shape dtype) :=
  steady.bind steady.freshId fun _ => steady.pure _

end Steady

/-- A relation that building keeps, and so does whatever else a command without a body can ask of a
context, but for moving the insertion point. -/
structure Firm (relates : Context → Context → Prop) : Prop extends Chains relates where
  log : ∀ (context : Context) (events : Array Event), relates context { context with log := events }
  freshId : ∀ context : Context, relates context { context with nextId := context.nextId + 1 }
  build : ∀ expr : Expr, Keeps relates (build expr)
  allocTensor : ∀ tensor : Tensor, Keeps relates (allocTensor tensor)

namespace Firm

variable {relates : Context → Context → Prop} (firm : Firm relates)
include firm

/-- A new node is built at once or not at all. -/
theorem steady : Steady relates where
  toChains := firm.toChains
  log := firm.log
  freshId := firm.freshId
  finish node := by
    refine firm.bind firm.freshId fun id => Keeps.get_bind fun seen => ?_
    dsimp only
    split
    · exact firm.bind (firm.build _) fun _ => firm.pure _
    · exact firm.pure _

theorem buildValue (expr : Expr) : Keeps relates (BuildM.buildValue expr) := by
  refine firm.bind (firm.build expr) fun binding => ?_
  cases binding with
  | value value => exact firm.pure value
  | op id => exact firm.throw _

theorem buildAll (exprs : List Expr) : Keeps relates (BuildM.buildAll exprs) := by
  induction exprs with
  | nil => exact firm.pure ()
  | cons expr rest ih => exact firm.bind (firm.build expr) fun _ => ih

theorem alloc (name : String) (shape : List Nat) (dtype : DType) :
    Keeps relates (BuildM.alloc name shape dtype) :=
  firm.bind (firm.steady.placeholder name shape dtype) fun tensor =>
    firm.bind (firm.allocTensor tensor) fun _ => firm.pure _

end Firm

end AffineKernel.BuildM
