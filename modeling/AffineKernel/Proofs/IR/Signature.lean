import AffineKernel.IR.Predicate
import AffineKernel.Proofs.IR.Growth

/-!
# Signatures of operations

The signature of an operation says how many operands it takes and of which
types, and which results, attributes and regions it has. Kinds of one shape
share a signature: all arithmetic on integers takes two integers of one width,
whatever it computes.

An operation *obeys* its signature in a module that gives its operands the types
asked for (`Operation.Obeys`). What `Operation.ObeysExactly` asks besides is
more than an execution needs: casts change the type, an access has an operand
for each dimension and symbol of its map and an index for each dimension of its
buffer, and a loop has an operand for each dimension of its bounds.

Signatures are about the types of values alone, so they survive growth
(`Operation.Admits.of_retains`).
-/

set_option autoImplicit false

namespace AffineKernel

/-- The shape of the operations of a kind. -/
inductive Signature where
  | constant
  /-- A function of one float. -/
  | function
  /-- An operation on two operands of a category. -/
  | arithmetic (category : Category)
  | comparison (category : Category)
  | cast
  | select
  | getBit
  | alloc
  | load
  | store
  | loop
  | conditional
  | yield
  | func
  | call
  | ret
deriving DecidableEq

/-- The signature of a kind. -/
def OpKind.signature : OpKind → Signature
  | .constant => .constant
  | .negF | .exp | .log | .log2 | .log10 | .sqrt | .sin | .cos | .tanh | .floor => .function
  | .addI | .subI | .mulI | .divSI | .divUI | .floorDivSI | .remSI | .remUI | .minSI | .maxSI
  | .minUI | .maxUI | .shlI | .shrSI | .shrUI | .andI | .orI | .xorI => .arithmetic .int
  | .addF | .subF | .mulF | .divF | .remF | .minF | .maxF => .arithmetic .float
  | .addFixed | .subFixed | .mulFixed | .divFixed | .minFixed | .maxFixed => .arithmetic .fixed
  | .cmpI => .comparison .int
  | .cmpF => .comparison .float
  | .cmpFixed => .comparison .fixed
  | .indexCast | .conversionCast => .cast
  | .select => .select
  | .getBit => .getBit
  | .alloc => .alloc
  | .load => .load
  | .store => .store
  | .affineFor => .loop
  | .affineIf => .conditional
  | .yield => .yield
  | .func => .func
  | .call => .call
  | .ret => .ret

/-- Whether operations of a shape neither own a region nor end one. -/
def Signature.isPlain : Signature → Bool
  | .loop | .conditional | .func | .yield | .ret => false
  | _ => true

/-- Whether a code is that of a predicate on operands of a category. -/
def Category.hasPredicate (category : Category) (code : Int64) : Bool :=
  match category with
  | .float => (FloatPredicate.ofCode? code).isSome
  | .int | .fixed => (IntPredicate.ofCode? code).isSome

/-- Whether an attribute is a number. -/
def Attribute.isNumber : Attribute → Bool
  | .int .. | .float .. => true
  | _ => false

/-- Two operands of a category and of one width. -/
structure Module.Matches (module : Module) (category : Category) (lhs rhs : Value)
    (left right : DType) : Prop where
  typeLeft : module.valueType? lhs = some (.scalar left)
  typeRight : module.valueType? rhs = some (.scalar right)
  sortLeft : left.category = category
  sortRight : right.category = category
  width : right.width = left.width

/-- Operands that address an element of a buffer by an affine map. -/
structure Operation.Accesses (exact : Prop) (module : Module) (op : Operation) (memref : Value)
    (indices : List Value) (dtype : DType) (shape : List Nat) (map : AffineMap) : Prop where
  buffer : module.valueType? memref = some (.memref shape dtype)
  attr : (op.attr? "map").bind Attribute.asMap? = some map
  index : ∀ index ∈ indices, module.valueType? index = some (.scalar .index)
  covers : exact → map.results.length = shape.length
  arity : exact → indices.length = map.dims + map.symbols

/-- An operation is of the shape that a signature asks for; with `exact`, also in what an execution
does not need. -/
def Operation.Admits (exact : Prop) (module : Module) (op : Operation) : Signature → Prop
  | .constant => op.operands = [] ∧ (∃ dtype, op.results = [.scalar dtype]) ∧
      ∃ value, op.attr? "value" = some value ∧ value.isNumber = true
  | .function => ∃ operand dtype, op.operands = [operand] ∧
      module.valueType? operand = some (.scalar dtype) ∧ op.results = [.scalar dtype] ∧
      dtype.category = .float
  | .arithmetic category => ∃ lhs rhs left right, op.operands = [lhs, rhs] ∧
      module.Matches category lhs rhs left right ∧ op.results = [.scalar left]
  | .comparison category => ∃ lhs rhs left right code, op.operands = [lhs, rhs] ∧
      module.Matches category lhs rhs left right ∧ op.results = [.scalar .bool] ∧
      (op.attr? "predicate").bind Attribute.asInt? = some code ∧ category.hasPredicate code = true
  | .cast => ∃ operand source target, op.operands = [operand] ∧
      module.valueType? operand = some (.scalar source) ∧ op.results = [.scalar target] ∧
      (exact → source ≠ target)
  | .select => ∃ condition thenValue elseValue dtype,
      op.operands = [condition, thenValue, elseValue] ∧
      module.valueType? condition = some (.scalar .bool) ∧
      module.valueType? thenValue = some (.scalar dtype) ∧
      module.valueType? elseValue = some (.scalar dtype) ∧ op.results = [.scalar dtype]
  | .getBit => ∃ value position dtype, op.operands = [value, position] ∧
      module.valueType? value = some (.scalar dtype) ∧ dtype.category = .int ∧
      (exact → dtype.isInt = true) ∧ module.valueType? position = some (.scalar .index) ∧
      op.results = [.scalar .bool]
  | .alloc => op.operands = [] ∧ ∃ shape dtype, op.results = [.memref shape dtype]
  | .load => ∃ memref indices dtype shape map, op.operands = memref :: indices ∧
      op.Accesses exact module memref indices dtype shape map ∧ op.results = [.scalar dtype]
  | .store => ∃ value memref indices dtype shape map, op.operands = value :: memref :: indices ∧
      module.valueType? value = some (.scalar dtype) ∧
      op.Accesses exact module memref indices dtype shape map ∧ op.results = []
  | .loop => (∀ operand ∈ op.operands, module.valueType? operand = some (.scalar .index)) ∧
      (∃ lower upper, (op.attr? "lower_bound").bind Attribute.asMap? = some lower ∧
        (op.attr? "upper_bound").bind Attribute.asMap? = some upper ∧
        (exact → op.operands.length = lower.dims + upper.dims)) ∧
      (∃ step, (op.attr? "step").bind Attribute.asInt? = some step) ∧
      (∃ body, op.regions = [body] ∧
        (module.block? body).map Block.args = some [.scalar .index]) ∧ op.results = []
  | .conditional => (∀ operand ∈ op.operands, module.valueType? operand = some (.scalar .index)) ∧
      (∃ condition, (op.attr? "condition").bind Attribute.asSet? = some condition) ∧
      (∀ region ∈ op.regions, (module.block? region).map Block.args = some []) ∧ op.results = []
  | .yield => op.results = []
  | .func => op.operands = [] ∧ (∃ name, (op.attr? "sym_name").bind Attribute.asText? = some name) ∧
      (∃ body, op.regions = [body]) ∧ op.results = []
  | .call => (∃ callee, (op.attr? "callee").bind Attribute.asText? = some callee) ∧
      (op.results = [] ∨ ∃ dtype, op.results = [.scalar dtype])
  | .ret => (∀ operand ∈ op.operands, ∃ dtype, module.valueType? operand = some (.scalar dtype)) ∧
      op.results = []

/-- An operation is of the shape of its kind. -/
def Operation.Obeys (module : Module) (op : Operation) : Prop :=
  op.Admits False module op.kind.signature

/-- An operation is exactly of the shape of its kind. -/
def Operation.ObeysExactly (module : Module) (op : Operation) : Prop :=
  op.Admits True module op.kind.signature

/-- An operation has one result at most. -/
theorem Operation.ObeysExactly.results_length_le {module : Module} {op : Operation}
    (obeys : op.ObeysExactly module) : op.results.length ≤ 1 := by
  have admits : op.Admits True module op.kind.signature := obeys
  cases sort : op.kind.signature <;> rw [sort] at admits
  case constant => obtain ⟨-, ⟨_, results⟩, -⟩ := admits; simp [results]
  case function => obtain ⟨_, _, -, -, results, -⟩ := admits; simp [results]
  case arithmetic => obtain ⟨_, _, _, _, -, -, results⟩ := admits; simp [results]
  case comparison => obtain ⟨_, _, _, _, _, -, -, results, -⟩ := admits; simp [results]
  case cast => obtain ⟨_, _, _, -, -, results, -⟩ := admits; simp [results]
  case select => obtain ⟨_, _, _, _, -, -, -, -, results⟩ := admits; simp [results]
  case getBit => obtain ⟨_, _, _, -, -, -, -, -, results⟩ := admits; simp [results]
  case alloc => obtain ⟨-, _, _, results⟩ := admits; simp [results]
  case load => obtain ⟨_, _, _, _, _, -, -, results⟩ := admits; simp [results]
  case store => obtain ⟨_, _, _, _, _, _, -, -, -, results⟩ := admits; simp [results]
  case loop => obtain ⟨-, -, -, -, results⟩ := admits; simp [results]
  case conditional => obtain ⟨-, -, -, results⟩ := admits; simp [results]
  case yield => simp [show op.results = [] from admits]
  case func => obtain ⟨-, -, -, results⟩ := admits; simp [results]
  case call => obtain ⟨-, results | ⟨_, results⟩⟩ := admits <;> simp [results]
  case ret => obtain ⟨-, results⟩ := admits; simp [results]

/-! ## Growth -/

/-- A module that has the operations of another one, and its blocks with their arguments. -/
structure Module.Retains (before after : Module) : Prop where
  op? : ∀ {id : OpId} {op : Operation}, before.op? id = some op → after.op? id = some op
  args : ∀ {block : BlockId} {args : List ValueType},
    (before.block? block).map Block.args = some args →
    (after.block? block).map Block.args = some args

namespace Module.Retains

variable {before middle after : Module}

theorem refl (module : Module) : Retains module module := ⟨fun found => found, fun found => found⟩

theorem trans (first : Retains before middle) (second : Retains middle after) :
    Retains before after :=
  ⟨fun found => second.op? (first.op? found), fun found => second.args (first.args found)⟩

/-- Values keep their types. -/
theorem valueType? (retains : Retains before after) {value : Value} {type : ValueType}
    (typed : before.valueType? value = some type) : after.valueType? value = some type := by
  cases value with
  | result op position =>
      simp only [Module.valueType?, Option.bind_eq_bind, Option.bind_eq_some_iff] at typed ⊢
      obtain ⟨found, listed, known⟩ := typed
      exact ⟨found, retains.op? listed, known⟩
  | arg block position =>
      simp only [Module.valueType?, Option.bind_eq_bind, Option.bind_eq_some_iff] at typed ⊢
      obtain ⟨found, listed, known⟩ := typed
      have same : (after.block? block).map Block.args = some found.args :=
        retains.args (by rw [listed]; rfl)
      obtain ⟨grown, listed, args⟩ := Option.map_eq_some_iff.mp same
      exact ⟨grown, listed, args ▸ known⟩

/-- Creating an operation retains what was there, wherever it is listed. -/
theorem create (module : Module) (draft : OpDraft) (point : InsertionPoint) :
    Retains module (module.create draft point).2 where
  op? := Module.op?_create
  args {block args} known := by
    obtain ⟨found, listed, rfl⟩ := Option.map_eq_some_iff.mp known
    by_cases same : block = point.block
    · subst same
      rw [Module.block?_create_self listed]
      rfl
    · rw [Module.block?_create_of_ne same listed]
      rfl

end Module.Retains

section Growth

variable {exact : Prop} {before after : Module} (retains : before.Retains after)
include retains

theorem Module.Matches.of_retains {category : Category} {lhs rhs : Value} {left right : DType}
    (matched : before.Matches category lhs rhs left right) :
    after.Matches category lhs rhs left right :=
  { matched with
    typeLeft := retains.valueType? matched.typeLeft
    typeRight := retains.valueType? matched.typeRight }

theorem Operation.Accesses.of_retains {op : Operation} {memref : Value} {indices : List Value}
    {dtype : DType} {shape : List Nat} {map : AffineMap}
    (accesses : op.Accesses exact before memref indices dtype shape map) :
    op.Accesses exact after memref indices dtype shape map :=
  { accesses with
    buffer := retains.valueType? accesses.buffer
    index := fun index listed => retains.valueType? (accesses.index index listed) }

/-- What an operation needs of a module is there in a module that has more. -/
theorem Operation.Admits.of_retains {op : Operation} {signature : Signature}
    (admits : op.Admits exact before signature) : op.Admits exact after signature := by
  have typed {value : Value} {type : ValueType} (known : before.valueType? value = some type) :
      after.valueType? value = some type := retains.valueType? known
  cases signature with
  | constant | alloc | yield | func | call => exact admits
  | function =>
      obtain ⟨operand, dtype, operands, known, rest⟩ := admits
      exact ⟨operand, dtype, operands, typed known, rest⟩
  | arithmetic category =>
      obtain ⟨lhs, rhs, left, right, operands, matched, results⟩ := admits
      exact ⟨lhs, rhs, left, right, operands, matched.of_retains retains, results⟩
  | comparison category =>
      obtain ⟨lhs, rhs, left, right, code, operands, matched, rest⟩ := admits
      exact ⟨lhs, rhs, left, right, code, operands, matched.of_retains retains, rest⟩
  | cast =>
      obtain ⟨operand, source, target, operands, known, rest⟩ := admits
      exact ⟨operand, source, target, operands, typed known, rest⟩
  | select =>
      obtain ⟨condition, thenValue, elseValue, dtype, operands, first, second, third, rest⟩ := admits
      exact ⟨condition, thenValue, elseValue, dtype, operands, typed first, typed second,
        typed third, rest⟩
  | getBit =>
      obtain ⟨value, position, dtype, operands, first, sort, integer, second, rest⟩ := admits
      exact ⟨value, position, dtype, operands, typed first, sort, integer, typed second, rest⟩
  | load =>
      obtain ⟨memref, indices, dtype, shape, map, operands, accesses, results⟩ := admits
      exact ⟨memref, indices, dtype, shape, map, operands, accesses.of_retains retains, results⟩
  | store =>
      obtain ⟨value, memref, indices, dtype, shape, map, operands, known, accesses, results⟩ :=
        admits
      exact ⟨value, memref, indices, dtype, shape, map, operands, typed known,
        accesses.of_retains retains, results⟩
  | loop =>
      obtain ⟨operands, bounds, step, ⟨body, regions, args⟩, results⟩ := admits
      exact ⟨fun operand listed => typed (operands operand listed), bounds, step,
        ⟨body, regions, retains.args args⟩, results⟩
  | conditional =>
      obtain ⟨operands, condition, regions, results⟩ := admits
      exact ⟨fun operand listed => typed (operands operand listed), condition,
        fun region listed => retains.args (regions region listed), results⟩
  | ret =>
      obtain ⟨operands, results⟩ := admits
      refine ⟨fun operand listed => ?_, results⟩
      obtain ⟨dtype, known⟩ := operands operand listed
      exact ⟨dtype, typed known⟩

end Growth

end AffineKernel
