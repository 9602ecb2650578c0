import AffineKernel.Build.Control
import AffineKernel.Proofs.Build.Upholds

/-!
# Building nodes of their types

Building a node of a sound pool keeps the pool upheld, and yields a scalar of the
type of the node (`build_types`). Each emitter has one lemma: given operands of
the right types, the operation that it creates obeys its signature, and the
result has the type that was asked for.

The induction follows the recursion of `build`. Nothing is said about the
stack of insertion points: wherever an operation goes, its signature is the
same.
-/

set_option autoImplicit false

namespace AffineKernel

/-! ## Signatures of lowered operators -/

theorem Operation.obeysExactly {module : Module} {op : Operation} {signature : Signature}
    (kind : op.kind.signature = signature) (admits : op.Admits True module signature) :
    op.ObeysExactly module := by
  rw [ObeysExactly, kind]
  exact admits

theorem Comparison.code_hasPredicate (kind : Comparison) (dtype : DType) :
    dtype.category.hasPredicate (kind.code dtype) = true := by
  cases sort : dtype.category <;>
    simp [Category.hasPredicate, Comparison.code, sort, IntPredicate.ofCode?_code,
      FloatPredicate.ofCode?_code]

theorem Literal.toAttribute_isNumber (literal : Literal) (dtype : DType) :
    (literal.toAttribute dtype).isNumber = true := by
  cases sort : dtype.category <;> cases literal <;> simp [Literal.toAttribute, sort, Attribute.isNumber]

theorem ReduceKind.identity_isNumber (kind : ReduceKind) (dtype : DType) :
    (kind.identity dtype).isNumber = true := by
  cases kind with
  | sum => exact Literal.toAttribute_isNumber _ _
  | min | max =>
      simp only [ReduceKind.identity]
      split <;> rfl

namespace BuildM

open Context

variable {α β : Type} {epoch : Epoch} {pool : Pool} {base : Module}

/-! ## Arithmetic -/

theorem constant_types {dtype : DType} {literal : Attribute} (number : literal.isNumber = true) :
    Types epoch pool base (createValue .constant [] (.scalar dtype) [("value", literal)])
      fun module value => module.Yields epoch value dtype :=
  createScalar_types (fun _ => ⟨rfl, ⟨dtype, rfl⟩, literal, rfl, number⟩) (by simp)

theorem emitCast_types {value : Value} {source target : DType}
    (yields : base.Yields epoch value source) :
    Types epoch pool base (emitCast value source target)
      fun module made => module.Yields epoch made target := by
  rw [emitCast]
  split
  · rename_i same
    exact Types.pure fun module retains => same ▸ yields.of_retains retains
  · rename_i different
    refine createScalar_types (fun _ => ?_) (by simpa using yields.offers)
    exact Operation.obeysExactly (castKind_signature source target)
      ⟨value, source, target, rfl, yields.typed, rfl, fun _ => different⟩

theorem function_types {kind : OpKind} (unary : kind.signature = .function) {value : Value}
    {dtype : DType} (float : dtype.category = .float) (yields : base.Yields epoch value dtype) :
    Types epoch pool base (createValue kind [value] (.scalar dtype) [])
      fun module made => module.Yields epoch made dtype := by
  refine createScalar_types (fun _ => ?_) (by simpa using yields.offers)
  exact Operation.obeysExactly unary ⟨value, dtype, rfl, yields.typed, rfl, float⟩

theorem arithmetic_types {kind : OpKind} {lhs rhs : Value} {left right : DType}
    (binary : kind.signature = .arithmetic left.category) (meets : left.Meets right)
    (first : base.Yields epoch lhs left) (second : base.Yields epoch rhs right) :
    Types epoch pool base (createValue kind [lhs, rhs] (.scalar left) [])
      fun module made => module.Yields epoch made left := by
  refine createScalar_types (fun _ => ?_) (by simpa using ⟨first.offers, second.offers⟩)
  exact Operation.obeysExactly binary ⟨lhs, rhs, left, right, rfl,
    ⟨first.typed, second.typed, rfl, meets.category, meets.width⟩, rfl⟩

theorem emitBinary_types {kind : BinaryKind} {lhs rhs : Value} {left right : DType} {op : OpKind}
    (lowered : kind.lower left = .ok op) (meets : left.Meets right)
    (first : base.Yields epoch lhs left) (second : base.Yields epoch rhs right) :
    Types epoch pool base (emitBinary kind left lhs rhs)
      fun module made => module.Yields epoch made left := by
  rw [emitBinary, lowered]
  simp only [liftExcept, pure_bind]
  refine (arithmetic_types (BinaryKind.lower_signature lowered) meets first second).bind
    fun result module _ yields => ?_
  split
  · rename_i floors
    have float : left.category = .float := by
      have isFloat := floors.2
      cases left <;> simp [DType.isFloat, DType.category] at isFloat ⊢
    exact function_types rfl float yields
  · exact Types.pure fun later retains => yields.of_retains retains

theorem emitCompare_types {kind : Comparison} {lhs rhs : Value} {left right : DType}
    (meets : left.Meets right) (first : base.Yields epoch lhs left)
    (second : base.Yields epoch rhs right) :
    Types epoch pool base (emitCompare kind left lhs rhs)
      fun module made => module.Yields epoch made .bool := by
  refine createScalar_types (fun _ => ?_) (by simpa using ⟨first.offers, second.offers⟩)
  exact Operation.obeysExactly (OpKind.compareFor_signature _) ⟨lhs, rhs, left, right,
    kind.code left, rfl, ⟨first.typed, second.typed, rfl, meets.category, meets.width⟩, rfl, rfl,
    kind.code_hasPredicate left⟩

theorem restorePoint_types : Types epoch pool base restorePoint fun _ _ => True := by
  intro context upholds _
  rw [restorePoint, ensures_bind, ensures_get]
  split
  · exact upholds
  · simp only [ensures_bind, ensures_set, ensures_emit, ensures_pure]
    refine ⟨Upholds.emit ?_ _, .refl _, trivial⟩
    exact upholds.mono rfl (fun _ _ found => found) rfl (Nat.le_refl _)

theorem emitYield_types : Types epoch pool base emitYield fun _ _ => True :=
  Types.bind (create_types rfl (fun _ => rfl) (by simp)) fun _ _ _ _ =>
    Types.pure fun _ _ => trivial

/-! ## Accesses -/

theorem storageOf_reads {tensor : Tensor} {good : Module → Value → Prop}
    (reads : ∀ {context : Context} {value : Value}, context.Upholds epoch pool →
      context.storage? tensor = some value → good context.module value) :
    Types epoch pool base (storageOf tensor) good := by
  intro context upholds retains
  simp only [storageOf, ensures_bind, ensures_get]
  split
  · rename_i value found
    exact ⟨upholds, .refl _, reads upholds found⟩
  · exact upholds

theorem storageOf_types {tensor : Tensor} (member : pool.tensor tensor) :
    Types epoch pool base (storageOf tensor) fun module value =>
      module.valueType? value = some (.memref tensor.shape tensor.dtype) :=
  storageOf_reads fun upholds found => upholds.buffer member found

/-- All storage is buffers. -/
theorem storageOf_isBuffer (tensor : Tensor) :
    Types epoch pool base (storageOf tensor) fun module value => module.IsBuffer value := by
  refine storageOf_reads fun upholds found => ?_
  obtain ⟨other, -, -, typed⟩ := upholds.stored found
  exact ⟨_, _, typed⟩

/-- The values of loop variables that stand for nodes of the pool. -/
theorem loopValues_yield {context : Context} (upholds : context.Upholds epoch pool)
    {refs : List LoopRef} {values : List Value}
    (stand : ∀ ref ∈ refs, Extraction.Stands pool.expr ref)
    (bound : refs.map context.loopValue? = values.map some) :
    ∀ value ∈ values, context.module.Yields epoch value .index := by
  intro value listed
  have known : some value ∈ refs.map context.loopValue? :=
    bound ▸ List.mem_map_of_mem listed
  obtain ⟨ref, member, found⟩ := List.mem_map.mp known
  obtain ⟨expr, inside, same, named⟩ := stand ref member
  have held := binding?_of_loopValue? found
  rw [← same] at held
  obtain ⟨dtype, typed, yields⟩ := upholds.yields inside held
  cases expr with
  | loopVar | axis =>
      cases typed
      exact yields
  | _ => cases named

theorem affineAccess_types {indices : List Expr} (members : ∀ index ∈ indices, pool.expr index) :
    Types epoch pool base (affineAccess indices) fun module made =>
      made.1.results.length = indices.length ∧ made.2.length = made.1.dims + made.1.symbols ∧
        ∀ value ∈ made.2, module.Yields epoch value .index := by
  intro context upholds retains
  refine (affineAccess_reads indices context).mono ?_ ?_
  · rintro ⟨map, operands⟩ after ⟨refs, read, rfl, bound⟩
    have stand := Extraction.access_stands upholds.sound.operands members read
    obtain ⟨dims, symbols, results⟩ := Extraction.access_shape read
    have count : refs.length = operands.length := by
      simpa using congrArg List.length bound
    refine ⟨upholds.emit _, .refl _, results, ?_, loopValues_yield upholds stand bound⟩
    rw [dims, symbols, count, Nat.add_zero]
  · rintro after (rfl | ⟨event, rfl⟩)
    · exact upholds
    · exact upholds.emit _

theorem emitLoad_types {tensor : Tensor} {indices : List Expr} (member : pool.tensor tensor)
    (members : ∀ index ∈ indices, pool.expr index) (covers : indices.length = tensor.rank) :
    Types epoch pool base (emitLoad tensor indices)
      fun module value => module.Yields epoch value tensor.dtype := by
  refine (storageOf_types member).bind fun memref module _ buffer => ?_
  refine (affineAccess_types members).bind ?_
  rintro ⟨map, operands⟩ later retains ⟨results, arity, yields⟩
  have buffer := retains.valueType? buffer
  refine createScalar_types (fun _ => ?_) ?_
  · exact ⟨memref, operands, tensor.dtype, tensor.shape, map, rfl,
      ⟨buffer, rfl, fun index listed => (yields index listed).typed,
        fun _ => results.trans covers, fun _ => arity⟩, rfl⟩
  · intro operand listed
    rcases List.mem_cons.mp listed with rfl | index
    · exact .inl ⟨_, _, buffer⟩
    · exact (yields operand index).offers

theorem emitStore_types {value : Value} {tensor : Tensor} {indices : List Expr}
    (stored : base.Yields epoch value tensor.dtype) (member : pool.tensor tensor)
    (members : ∀ index ∈ indices, pool.expr index) (covers : indices.length = tensor.rank) :
    Types epoch pool base (emitStore value tensor indices) fun _ _ => True := by
  refine (storageOf_types member).bind fun memref module first buffer => ?_
  refine (affineAccess_types members).bind ?_
  rintro ⟨map, operands⟩ later retains ⟨results, arity, yields⟩
  have buffer := retains.valueType? buffer
  have stored := stored.of_retains (first.trans retains)
  refine (create_types rfl (fun _ => ?_) ?_).mono fun _ _ _ _ => trivial
  · exact ⟨value, memref, operands, tensor.dtype, tensor.shape, map, rfl, stored.typed,
      ⟨buffer, rfl, fun index listed => (yields index listed).typed,
        fun _ => results.trans covers, fun _ => arity⟩, rfl⟩
  · intro operand listed
    rcases List.mem_cons.mp listed with rfl | access
    · exact stored.offers
    rcases List.mem_cons.mp access with rfl | index
    · exact .inl ⟨_, _, buffer⟩
    · exact (yields operand index).offers

/-! ## Bindings of nodes -/

/-- A node that is bound to a value is bound to a scalar of its type. -/
def Denotes (epoch : Epoch) (expr : Expr) (module : Module) (binding : Binding) : Prop :=
  ∀ value, binding = .value value →
    ∃ dtype, expr.dtype? = some dtype ∧ module.Yields epoch value dtype

theorem emitCall_types (id : NodeId) (dtype : Option DType) (callee : String) (given : List CallArg)
    {args : List Value} (offers : ∀ value ∈ args, base.Offers epoch value) :
    Types epoch pool base (emitCall dtype callee args)
      (Denotes epoch (.call id dtype callee given)) := by
  refine Types.bind (create_types rfl (fun _ => ⟨⟨callee, rfl⟩, ?_⟩) offers) ?_
  · cases dtype with
    | none => exact .inl rfl
    | some dtype => exact .inr ⟨dtype, rfl⟩
  · rintro op module - ⟨recent, regions, parent, found⟩
    refine Types.pure fun later retains value same => ?_
    cases dtype with
    | none => cases same
    | some dtype =>
        cases same
        refine ⟨dtype, rfl, retains.valueType? ?_, .inr recent⟩
        simp [Module.valueType?, found, OpDraft.op]

theorem once_types (expr : Expr) (member : pool.expr expr) {name : String}
    {action : BuildM Binding} (acts : Types epoch pool base action (Denotes epoch expr)) :
    Types epoch pool base (once expr.id name action) (Denotes epoch expr) := by
  intro context upholds retains
  simp only [once, ensures_bind, ensures_get]
  split
  · rename_i binding found
    refine ⟨upholds, .refl _, fun value same => ?_⟩
    exact upholds.yields member (same ▸ found)
  · simp only [ensures_bind, ensures_emit, ensures_bindNode, ensures_pure]
    refine (acts _ (upholds.emit _) retains).mono ?_ fun _ failed => failed
    rintro binding after ⟨upheld, step, denotes⟩
    exact ⟨upheld.bind expr member denotes, step, denotes⟩

theorem onceValue_types (expr : Expr) (member : pool.expr expr) {dtype : DType}
    (typed : expr.dtype? = some dtype) {name : String} {action : BuildM Value}
    (acts : Types epoch pool base action fun module value => module.Yields epoch value dtype) :
    Types epoch pool base (onceValue expr.id name action) (Denotes epoch expr) := by
  refine once_types expr member (Types.map (acts.mono ?_))
  rintro module value - yields other same
  cases same
  exact ⟨dtype, typed, yields⟩

/-- The value of a node is built, and then something is done with it. -/
theorem value_types {expr : Expr} {name : String} {next : Value → BuildM α}
    {good : Module → α → Prop} (built : Types epoch pool base (build expr) (Denotes epoch expr))
    (continues : ∀ value module dtype, base.Retains module → expr.dtype? = some dtype →
      module.Yields epoch value dtype → Types epoch pool module (next value) good) :
    Types epoch pool base (build expr >>= fun binding => needValue name binding >>= next)
      good := by
  refine built.bind fun binding module retains denotes => ?_
  cases binding with
  | op id => exact Types.throw_bind _ _
  | value value =>
      obtain ⟨dtype, typed, yields⟩ := denotes value rfl
      exact continues value module dtype retains typed yields

/-- An operand of a known type is built, and then something is done with its value. -/
theorem operand_types {expr : Expr} {name : String} {next : Value → BuildM α} {dtype : DType}
    {good : Module → α → Prop} (built : Types epoch pool base (build expr) (Denotes epoch expr))
    (typed : expr.dtype? = some dtype)
    (continues : ∀ value module, base.Retains module → module.Yields epoch value dtype →
      Types epoch pool module (next value) good) :
    Types epoch pool base (build expr >>= fun binding => needValue name binding >>= next)
      good := by
  refine value_types built fun value module type retains known yields => ?_
  obtain rfl : type = dtype := Option.some.inj (known.symm.trans typed)
  exact continues value module retains yields

/-! ## Loops -/

/-- A bound of a loop: an operand for each dimension of its map, of type `index`. -/
structure LoopBound.Fits (epoch : Epoch) (module : Module) (bound : LoopBound) : Prop where
  dims : bound.operand.toList.length = bound.map.dims
  yields : ∀ value ∈ bound.operand.toList, module.Yields epoch value .index

theorem LoopBound.Fits.of_retains {bound : LoopBound} {later : Module}
    (fits : bound.Fits epoch base) (retains : base.Retains later) : bound.Fits epoch later :=
  ⟨fits.dims, fun value listed => (fits.yields value listed).of_retains retains⟩

theorem emitLoop_types {lower upper : LoopBound} {spec : LoopSpec} (low : lower.Fits epoch base)
    (high : upper.Fits epoch base) :
    Types epoch pool base (emitLoop lower upper spec)
      fun module header => module.Yields epoch header.counter .index := by
  have yields : ∀ value ∈ lower.operand.toList ++ upper.operand.toList,
      base.Yields epoch value .index := by
    intro value listed
    rcases List.mem_append.mp listed with first | second
    · exact low.yields value first
    · exact high.yields value second
  refine Types.bind (createRegion_types ?_ (fun value listed => (yields value listed).offers) rfl ?_) ?_
  · intro module regions parent retains taken
    obtain ⟨body, rfl, args⟩ := taken.single
    refine ⟨fun value listed => retains.valueType? (yields value listed).typed,
      ⟨lower.map, upper.map, rfl, rfl, fun _ => ?_⟩, ⟨_, rfl⟩, ⟨body, rfl, args⟩, rfl⟩
    simp [OpDraft.op, low.dims, high.dims]
  · intro named
    cases named
  · rintro ⟨op, body⟩ module - ⟨args, recent⟩
    refine (emit_types _).bind fun _ later retains _ => Types.pure fun last further => ?_
    refine Module.Yields.of_retains (retains.trans further) ⟨?_, .inr recent⟩
    obtain ⟨found, listed, same⟩ := Option.map_eq_some_iff.mp args
    simp [LoopHeader.counter, Module.valueType?, listed, same]

theorem closeLoops_types : ∀ (count : Nat) {base : Module},
    Types epoch pool base (closeLoops count) fun _ _ => True
  | 0, _ => Types.pure fun _ _ => trivial
  | count + 1, _ => by
      refine emitYield_types.bind fun _ module _ _ => ?_
      refine restorePoint_types.bind fun _ later _ _ => ?_
      exact closeLoops_types count

/-! ## Reductions -/

/-- The buffer of a reduction has one element of its type. -/
structure Accumulator.Fits (epoch : Epoch) (module : Module) (acc : Accumulator) : Prop where
  buffer : module.valueType? acc.buffer = some (.memref [1] acc.dtype)
  zero : module.Yields epoch acc.zero .index

theorem Accumulator.Fits.of_retains {acc : Accumulator} {later : Module}
    (fits : acc.Fits epoch base) (retains : base.Retains later) : acc.Fits epoch later :=
  ⟨retains.valueType? fits.buffer, fits.zero.of_retains retains⟩

/-- The access to the only element. -/
theorem Accumulator.Fits.accesses {acc : Accumulator} {op : Operation} (fits : acc.Fits epoch base)
    (attributes : op.attributes = acc.attributes) :
    op.Accesses True base acc.buffer [acc.zero] acc.dtype [1] ⟨0, 1, [.symbol 0]⟩ where
  buffer := fits.buffer
  attr := by
    rw [Operation.attr?, attributes]
    rfl
  index := by simpa using fits.zero.typed
  covers _ := rfl
  arity _ := rfl

theorem accumulator_load_types {acc : Accumulator} (fits : acc.Fits epoch base) :
    Types epoch pool base acc.load fun module value => module.Yields epoch value acc.dtype := by
  refine createScalar_types (fun _ => ?_) ?_
  · exact ⟨acc.buffer, [acc.zero], acc.dtype, [1], ⟨0, 1, [.symbol 0]⟩, rfl, fits.accesses rfl, rfl⟩
  · simpa using ⟨.inl ⟨_, _, fits.buffer⟩, fits.zero.offers⟩

theorem accumulator_store_types {acc : Accumulator} {value : Value} (fits : acc.Fits epoch base)
    (yields : base.Yields epoch value acc.dtype) :
    Types epoch pool base (acc.store value) fun _ _ => True := by
  refine Types.bind (create_types rfl (fun _ => ?_) ?_) fun _ _ _ _ =>
    Types.pure fun _ _ => trivial
  · exact ⟨value, acc.buffer, [acc.zero], acc.dtype, [1], ⟨0, 1, [.symbol 0]⟩, rfl, yields.typed,
      fits.accesses rfl, rfl⟩
  · simpa using ⟨yields.offers, .inl ⟨_, _, fits.buffer⟩, fits.zero.offers⟩

theorem openAccumulator_types (kind : ReduceKind) (dtype : DType) :
    Types epoch pool base (openAccumulator kind dtype) fun module acc =>
      acc.Fits epoch module ∧ acc.dtype = dtype := by
  refine Types.bind (createValue_types (fun _ => ⟨rfl, _, _, rfl⟩) (by simp))
    fun buffer first _ allocated => ?_
  refine Types.bind (constant_types (Literal.toAttribute_isNumber _ _))
    fun zero second retains zeroed => ?_
  refine Types.bind (constant_types (kind.identity_isNumber dtype))
    fun start third further started => ?_
  have fits : Accumulator.Fits epoch third ⟨buffer, zero, kind.name ++ "_rv", dtype⟩ :=
    ⟨(retains.trans further).valueType? allocated.1, zeroed.of_retains further⟩
  refine (accumulator_store_types fits started).bind fun _ last later _ => ?_
  exact Types.pure fun _ end_ => ⟨fits.of_retains (later.trans end_), rfl⟩

/-- What a reduction does inside its region, once its axes and its body are built. -/
theorem reduceNest_types {acc : Accumulator} (kind : ReduceKind) {body : Expr} {axes : List Expr}
    (fits : acc.Fits epoch base) (opened : Types epoch pool base (openAxes axes) fun _ _ => True)
    (built : ∀ {later : Module}, Types epoch pool later (build body) (Denotes epoch body)) :
    Types epoch pool base (reduceNest acc kind acc.dtype body axes) fun _ _ => True := by
  refine opened.bind fun _ nest inside _ => ?_
  refine Types.valueType_bind fun actual typed => ?_
  dsimp only
  split
  · exact Types.throw_bind _ _
  rename_i same
  obtain rfl : actual = acc.dtype := Decidable.not_not.mp same
  have fits := fits.of_retains inside
  refine operand_types built typed fun data first retains yields => ?_
  have fits := fits.of_retains retains
  refine (accumulator_load_types fits).bind fun current second retains loaded => ?_
  have meets : acc.dtype.Meets acc.dtype := ⟨rfl, rfl⟩
  refine (arithmetic_types (kind.combine_signature acc.dtype) meets
    (yields.of_retains retains) loaded).bind fun combined third further made => ?_
  have fits := fits.of_retains (retains.trans further)
  exact (accumulator_store_types fits made).bind fun _ _ _ _ => closeLoops_types _

/-! ## Nodes -/

section Nodes

variable {next : NodeId}

mutual

/-- Building a node of the pool keeps it upheld and yields a scalar of the type of the node. -/
theorem build_types (sound : pool.Sound next) : ∀ (expr : Expr) {base : Module}, pool.expr expr →
    Types epoch pool base (build expr) (Denotes epoch expr)
  | .constant id dtype literal, _, member => by
      rw [build]
      exact onceValue_types (.constant id dtype literal) member rfl
        (constant_types (literal.toAttribute_isNumber dtype))
  | .loopVar id name, _, member => by
      rw [build]
      exact onceValue_types (.loopVar id name) member rfl (Types.throw _)
  | .axis id name lower upper, _, member => by
      rw [build]
      exact onceValue_types (.axis id name lower upper) member rfl (Types.throw _)
  | .unary id dtype kind operand, _, member => by
      have below := sound.operands member operand (by simp [Expr.operands])
      obtain ⟨float, typed⟩ := sound.formed member
      rw [build]
      refine onceValue_types (.unary id dtype kind operand) member rfl
        (operand_types (build_types sound operand below) typed fun value module _ yields => ?_)
      exact function_types kind.lower_signature float yields
  | .binary id dtype kind lhs rhs, _, member => by
      have left := sound.operands member lhs (by simp [Expr.operands])
      have right := sound.operands member rhs (by simp [Expr.operands])
      obtain ⟨typedLeft, ⟨op, lowered⟩, rightType, typedRight, meets⟩ := sound.formed member
      rw [build]
      refine onceValue_types (.binary id dtype kind lhs rhs) member rfl
        (operand_types (build_types sound lhs left) typedLeft fun a module _ first => ?_)
      refine operand_types (build_types sound rhs right) typedRight fun b later retains second => ?_
      exact emitBinary_types lowered meets (first.of_retains retains) second
  | .compare id kind lhs rhs, _, member => by
      have left := sound.operands member lhs (by simp [Expr.operands])
      have right := sound.operands member rhs (by simp [Expr.operands])
      obtain ⟨leftType, rightType, typedLeft, typedRight, meets⟩ := sound.formed member
      rw [build]
      refine onceValue_types (.compare id kind lhs rhs) member rfl
        (Types.valueType_bind fun dtype typed => ?_)
      obtain rfl : leftType = dtype := Option.some.inj (typedLeft.symm.trans typed)
      refine operand_types (build_types sound lhs left) typedLeft fun a module _ first => ?_
      refine operand_types (build_types sound rhs right) typedRight fun b later retains second => ?_
      exact emitCompare_types meets (first.of_retains retains) second
  | .cast id dtype source, _, member => by
      have below := sound.operands member source (by simp [Expr.operands])
      rw [build]
      refine onceValue_types (.cast id dtype source) member rfl
        (Types.valueType_bind fun sourceType typed => ?_)
      refine operand_types (build_types sound source below) typed fun value module _ yields => ?_
      exact emitCast_types yields
  | .load id tensor indices, _, member => by
      rw [build]
      exact onceValue_types (.load id tensor indices) member rfl
        (emitLoad_types (sound.tensors member tensor rfl) (sound.operands member)
          (sound.formed member))
  | .store id tensor value indices, _, member => by
      have inside := sound.operands member
      obtain ⟨typed, covers⟩ := sound.formed member
      rw [build]
      refine once_types (.store id tensor value indices) member
        (operand_types (build_types sound value (inside value (by simp [Expr.operands]))) typed
          fun stored module _ yields => ?_)
      refine (emitStore_types yields (sound.tensors member tensor rfl)
        (fun index listed => inside index (by simp [Expr.operands, listed])) covers).bind
          fun op later _ _ => Types.pure fun _ _ value same => ?_
      cases same
  | .select id dtype condition thenValue elseValue, _, member => by
      have first := sound.operands member condition (by simp [Expr.operands])
      have second := sound.operands member thenValue (by simp [Expr.operands])
      have third := sound.operands member elseValue (by simp [Expr.operands])
      obtain ⟨typedFirst, typedSecond, typedThird⟩ := sound.formed member
      rw [build]
      refine onceValue_types (.select id dtype condition thenValue elseValue) member rfl
        (operand_types (build_types sound condition first) typedFirst fun c module _ chosen => ?_)
      refine operand_types (build_types sound thenValue second) typedSecond fun t later retains yes => ?_
      refine operand_types (build_types sound elseValue third) typedThird fun e last further no => ?_
      have chosen := chosen.of_retains (retains.trans further)
      have yes := yes.of_retains further
      refine createScalar_types (fun _ => ?_) (by simpa using ⟨chosen.offers, yes.offers, no.offers⟩)
      exact ⟨c, t, e, dtype, rfl, chosen.typed, yes.typed, no.typed, rfl⟩
  | .call id dtype callee args, _, member => by
      rw [build]
      refine once_types (.call id dtype callee args) member
        ((buildArgs_types sound args (sound.operands member)).bind fun values module _ offers => ?_)
      exact emitCall_types id dtype callee args offers
  | .getBit id value bit, _, member => by
      have left := sound.operands member value (by simp [Expr.operands])
      have right := sound.operands member bit (by simp [Expr.operands])
      obtain ⟨⟨valueType, typedLeft, integer⟩, typedRight⟩ := sound.formed member
      rw [build]
      refine onceValue_types (.getBit id value bit) member rfl
        (operand_types (build_types sound value left) typedLeft fun v module _ first => ?_)
      refine operand_types (build_types sound bit right) typedRight fun b later retains second => ?_
      have first := first.of_retains retains
      refine createScalar_types (fun _ => ?_) (by simpa using ⟨first.offers, second.offers⟩)
      have sort : valueType.category = .int := by
        cases valueType <;> simp [DType.isInt, DType.category] at integer ⊢
      exact ⟨v, b, valueType, rfl, first.typed, sort, fun _ => integer, second.typed, rfl⟩
  | .reduce id dtype kind body axes, _, member => by
      have inside := sound.operands member
      rw [build_reduce]
      refine onceValue_types (.reduce id dtype kind body axes) member rfl
        ((emit_types _).bind fun _ first _ _ => ?_)
      refine (openAccumulator_types kind dtype).bind ?_
      rintro acc second - ⟨fits, rfl⟩
      have nest := reduceNest_types kind fits
        (openAxes_types sound axes fun axis listed => inside axis (by simp [Expr.operands, listed]))
        (build_types sound body (inside body (by simp [Expr.operands])))
      refine nest.inRegion.bind fun _ third retains _ => ?_
      exact accumulator_load_types (fits.of_retains retains)

/-- The bound of a loop over nodes of the pool. -/
theorem buildBound_types (sound : pool.Sound next) : ∀ (bound : Bound) {base : Module},
    (∀ expr ∈ bound.exprs, pool.expr expr) →
    Types epoch pool base (buildBound bound) fun module made => made.Fits epoch module
  | .const value, _, _ => by
      rw [buildBound]
      exact Types.pure fun _ _ => ⟨rfl, by simp⟩
  | .expr value, _, members => by
      have member := members value (by simp [Bound.exprs])
      rw [buildBound]
      refine Types.valueType_bind fun dtype typed => ?_
      dsimp only
      split
      · exact Types.throw_bind _ _
      refine operand_types (build_types sound value member) typed fun built module _ yields => ?_
      refine (emitCast_types yields).bind fun cast later _ made => ?_
      exact Types.pure fun last retains => ⟨rfl, by simpa using made.of_retains retains⟩

/-- The loops of axes of the pool. -/
theorem openAxes_types (sound : pool.Sound next) : ∀ (axes : List Expr) {base : Module},
    (∀ axis ∈ axes, pool.expr axis) →
    Types epoch pool base (openAxes axes) fun _ _ => True
  | [], _, _ => by
      rw [openAxes]
      exact Types.pure fun _ _ => trivial
  | .axis id name lower upper :: rest, _, members => by
      have member := members _ (List.mem_cons_self ..)
      have bounds := (sound.accepts member).bounds
      rw [openAxes]
      refine (buildBound_types sound lower fun expr listed =>
        bounds expr (by simp [Expr.bounds, listed])).bind fun low first _ fits => ?_
      refine (buildBound_types sound upper fun expr listed =>
        bounds expr (by simp [Expr.bounds, listed])).bind fun high second retains fitsHigh => ?_
      refine (emitLoop_types (fits.of_retains retains) fitsHigh).bind fun header third _ counts => ?_
      have bound : Types epoch pool third (bindNode id (.value header.counter)) fun _ _ => True := by
        intro context upholds retains
        refine ⟨?_, .refl _, trivial⟩
        refine upholds.bind (.axis id name lower upper) member fun value same => ?_
        cases same
        exact ⟨.index, rfl, counts.of_retains retains⟩
      refine bound.bind fun _ fourth _ _ => ?_
      have saved : Types epoch pool fourth (savePoint (.atEnd header.body)) fun _ _ => True :=
        Types.modify (fun _ upholds => upholds.mono rfl (fun _ _ found => found) rfl (Nat.le_refl _))
          fun _ => rfl
      refine saved.bind fun _ last _ _ => ?_
      exact openAxes_types sound rest fun axis listed => members axis (List.mem_cons_of_mem _ listed)
  | .constant .. :: _, _, _ | .loopVar .. :: _, _, _ | .unary .. :: _, _, _ | .binary .. :: _, _, _
  | .compare .. :: _, _, _ | .cast .. :: _, _, _ | .load .. :: _, _, _ | .store .. :: _, _, _
  | .select .. :: _, _, _ | .call .. :: _, _, _ | .getBit .. :: _, _, _ | .reduce .. :: _, _, _ => by
      rw [openAxes]
      · exact Types.throw _
      · nofun

/-- The operands of a call over nodes of the pool. -/
theorem buildArgs_types (sound : pool.Sound next) : ∀ (args : List CallArg) {base : Module},
    (∀ expr ∈ CallArg.exprs args, pool.expr expr) →
    Types epoch pool base (buildArgs args) fun module values =>
      ∀ value ∈ values, module.Offers epoch value
  | [], _, _ => by
      rw [buildArgs]
      exact Types.pure fun _ _ => by simp
  | .expr value :: rest, _, members => by
      have member := members value (by simp [CallArg.exprs])
      rw [buildArgs]
      refine value_types (build_types sound value member) fun first module _ _ _ yields => ?_
      refine (buildArgs_types sound rest fun expr listed =>
        members expr (by simp [CallArg.exprs, listed])).bind fun others later retains offers => ?_
      refine Types.pure fun last further operand listed => ?_
      rcases List.mem_cons.mp listed with rfl | other
      · exact yields.offers.of_retains (retains.trans further)
      · exact (offers operand other).of_retains further
  | .tensor tensor :: rest, _, members => by
      rw [buildArgs]
      refine (storageOf_isBuffer tensor).bind fun first module _ buffer => ?_
      refine (buildArgs_types sound rest members).bind fun others later retains offers => ?_
      refine Types.pure fun last further operand listed => ?_
      rcases List.mem_cons.mp listed with rfl | other
      · exact Module.Offers.of_retains (retains.trans further) (.inl buffer)
      · exact (offers operand other).of_retains further

end

theorem buildValue_types (sound : pool.Sound next) {expr : Expr} (member : pool.expr expr) :
    Types epoch pool base (buildValue expr) fun module value =>
      ∃ dtype, expr.dtype? = some dtype ∧ module.Yields epoch value dtype := by
  have whole : buildValue expr =
      build expr >>= fun binding => needValue expr.name binding >>= pure := by
    simp only [buildValue, bind_pure]
  rw [whole]
  refine value_types (build_types sound expr member) fun value module dtype _ typed yields => ?_
  exact Types.pure fun later retains => ⟨dtype, typed, yields.of_retains retains⟩

end Nodes

/-! ## Storage, functions and conditionals -/

theorem allocTensor_types {tensor : Tensor} (member : pool.tensor tensor) :
    Types epoch pool base (allocTensor tensor) fun _ _ => True := by
  have checked : Types epoch pool base (checkType tensor.dtype) fun _ _ => True :=
    fun context upholds _ => ensures_checkType ⟨upholds, .refl _, trivial⟩ upholds
  refine checked.bind fun _ module _ _ => ?_
  refine Types.bind (createValue_types (fun _ => ⟨rfl, _, _, rfl⟩) (by simp))
    fun value later _ allocated => ?_
  have stored : Types epoch pool later
      (modify (·.setStorage tensor value) : BuildM PUnit) fun _ _ => True :=
    fun context upholds retains =>
      ⟨upholds.setStorage member (retains.valueType? allocated.1), .refl _, trivial⟩
  exact stored.bind fun _ _ _ _ => Types.pure fun _ _ => trivial

/-- The arguments of a block as storage, from a position on. -/
theorem bindArgs_types {block : BlockId} : ∀ (tensors : List Tensor) (position : Nat)
    {base : Module} {types : List ValueType}, (∀ tensor ∈ tensors, pool.tensor tensor) →
    (base.block? block).map Block.args = some types →
    types.drop position = tensors.map (fun tensor => .memref tensor.shape tensor.dtype) →
    Types epoch pool base (bindArgs block position tensors) fun _ _ => True
  | [], _, _, _, _, _, _ => Types.pure fun _ _ => trivial
  | tensor :: rest, position, base, types, members, known, args => by
      have typed : base.valueType? (.arg block position) =
          some (.memref tensor.shape tensor.dtype) := by
        obtain ⟨found, listed, rfl⟩ := Option.map_eq_some_iff.mp known
        have first : found.args[position]? = some (.memref tensor.shape tensor.dtype) := by
          rw [← List.head?_drop, args]
          rfl
        simp [Module.valueType?, listed, first]
      have stored : Types epoch pool base
          (modify (·.setStorage tensor (.arg block position)) : BuildM PUnit) fun _ _ => True :=
        fun context upholds retains =>
          ⟨upholds.setStorage (members tensor (by simp)) (retains.valueType? typed), .refl _, trivial⟩
      refine stored.bind fun _ module retains _ => ?_
      refine bindArgs_types rest (position + 1) (fun other listed => members other (by simp [listed]))
        (retains.args known) ?_
      rw [← List.tail_drop, args]
      rfl

theorem beginFunction_types (relaxed : epoch.Relaxed) (name : String) {args : List Tensor}
    (members : ∀ tensor ∈ args, pool.tensor tensor) :
    Types epoch pool base (beginFunction name args) fun _ _ => True := by
  refine Types.bind (createRegion_types ?_ (by simp) rfl fun _ => relaxed) ?_
  · intro module regions parent retains taken
    obtain ⟨body, rfl, -⟩ := taken.single
    exact ⟨rfl, ⟨name, rfl⟩, ⟨body, rfl⟩, rfl⟩
  · rintro ⟨op, block⟩ module - ⟨known, -⟩
    refine (bindArgs_types args 0 members known rfl).bind fun _ later _ _ => ?_
    exact (emit_types _).bind fun _ _ _ _ => Types.pure fun _ _ => trivial

theorem return_types {operands : List Value}
    (yields : ∀ operand ∈ operands, ∃ dtype, base.Yields epoch operand dtype) :
    Types epoch pool base (create { kind := .ret, operands } >>= fun _ => pure ())
      fun _ _ => True := by
  refine Types.bind (create_types rfl (fun _ => ⟨fun operand listed => ?_, rfl⟩) ?_)
    fun _ _ _ _ => Types.pure fun _ _ => trivial
  · obtain ⟨dtype, known⟩ := yields operand listed
    exact ⟨dtype, known.typed⟩
  · intro operand listed
    obtain ⟨dtype, known⟩ := yields operand listed
    exact known.offers

theorem endFunction_types {next : NodeId} (sound : pool.Sound next) {result : Option Expr}
    (member : ∀ expr, result = some expr → pool.expr expr) :
    Types epoch pool base (endFunction result) fun _ _ => True := by
  cases result with
  | none => exact return_types (by simp)
  | some expr =>
      refine (buildValue_types sound (member expr rfl)).bind fun value module _ built => ?_
      obtain ⟨dtype, -, yields⟩ := built
      exact return_types (by simpa using ⟨dtype, yields⟩)

theorem beginConditional_types {next : NodeId} (sound : pool.Sound next) {condition : Expr}
    (member : pool.expr condition) :
    Types epoch pool base (beginConditional condition) fun _ _ => True := by
  refine Types.valueType_bind fun dtype typed => ?_
  dsimp only
  split
  · exact Types.throw_bind _ _
  refine (buildValue_types sound member).bind fun value module _ built => ?_
  obtain ⟨type, known, yields⟩ := built
  obtain rfl : type = dtype := Option.some.inj (known.symm.trans typed)
  refine (emitCast_types yields).bind fun index later _ made => ?_
  refine (createRegion_types ?_ (by simpa using made.offers) rfl ?_).mono fun _ _ _ _ => trivial
  · intro module regions parent retains taken
    obtain ⟨body, rfl, args⟩ := taken.single
    refine ⟨by simpa [OpDraft.op] using retains.valueType? made.typed, ⟨_, rfl⟩, ?_, rfl⟩
    simpa [OpDraft.op] using args
  · intro named
    cases named

end BuildM

end AffineKernel
