import AffineKernel.Proofs.Build.Refusals
import AffineKernel.Proofs.Build.Typing

/-!
# Constructing nodes

A constructor does little more than record nodes: it checks types, reports casts,
and records nodes over nodes that are there already, each perhaps built at once.
`BuildM.Plans` says of an action that it consists of such steps and makes
something good, over a pool that grows with each node; there is one lemma for
each constructor. What is to hold of all constructors is then proved by
induction over these steps.

`BuildM.Makes` says of an action that the pool, once grown, stays upheld, whether
the action fails or not, and whatever the epoch. It holds of constructors
(`Plans.makes`) as well as of actions that only build.
-/

set_option autoImplicit false

namespace AffineKernel

/-! ## Permits -/

/-- The tensors that may be loaded from and stored to, and whether anything may be called. -/
structure Permit where
  loads : Tensor → Prop
  stores : Tensor → Prop
  calls : Prop

namespace Permit

/-- Whether a node may be recorded. -/
def Records (permit : Permit) : Expr → Prop
  | .load _ tensor _ => permit.loads tensor
  | .store _ tensor _ _ => permit.stores tensor
  | .call .. => permit.calls
  | _ => True

/-- Any node may be recorded. -/
def all : Permit := ⟨fun _ => True, fun _ => True, True⟩

/-- Neither stores nor calls may be recorded. -/
def quiet (permit : Permit) : Permit := ⟨permit.loads, fun _ => False, False⟩

end Permit

namespace BuildM

variable {α β : Type} {pool : Pool} {permit : Permit}

/-! ## Plans -/

/-- From the nodes of a pool an action makes something good in a wider pool, by recording nodes of
a permit. -/
inductive Plans (permit : Permit) : Pool → BuildM α → (Pool → α → Prop) → Prop where
  | pure {pool : Pool} {a : α} {good : Pool → α → Prop} :
      good pool a → Plans permit pool (pure a) good
  /-- A refusal, which does not depend on what was built before. -/
  | throw {pool : Pool} {good : Pool → α → Prop} (error : BuildError)
      (proper : error.isPremature = false) : Plans permit pool (throw error) good
  | emit_bind {pool : Pool} {event : Event} {next : Unit → BuildM α} {good : Pool → α → Prop} :
      Plans permit pool (next ()) good → Plans permit pool (emit event >>= next) good
  /-- A new node, perhaps built at once. -/
  | finish_bind {pool : Pool} {node : NodeId → Expr} {next : Expr → BuildM α}
      {good : Pool → α → Prop} : (∀ id, (node id).id = id) →
      (∀ id, permit.Records (node id)) → (∀ id, pool.Accepts (node id)) →
      (∀ id, Plans permit (pool.insert (node id)) (next (node id)) good) →
      Plans permit pool (finish node >>= next) good
  /-- A new axis, which no construction builds. -/
  | axis_bind {pool : Pool} {lower upper : Bound} {name : String} {next : Expr → BuildM α}
      {good : Pool → α → Prop} : (∀ id, pool.Accepts (.axis id name lower upper)) →
      (∀ id, Plans permit (pool.insert (.axis id name lower upper))
        (next (.axis id name lower upper)) good) →
      Plans permit pool (axis lower upper name >>= next) good
  | placeholder_bind {pool : Pool} {name : String} {shape : List Nat} {dtype : DType}
      {next : Tensor → BuildM α} {good : Pool → α → Prop} :
      (∀ id, Plans permit (pool.insertTensor ⟨id, name, shape, dtype⟩)
        (next ⟨id, name, shape, dtype⟩) good) →
      Plans permit pool (placeholder name shape dtype >>= next) good

namespace Plans

variable {action : BuildM β} {next : β → BuildM α} {middle : Pool → β → Prop}
  {good better : Pool → α → Prop}

theorem bind (first : Plans permit pool action middle)
    (second : ∀ b wider, pool.Le wider → middle wider b → Plans permit wider (next b) good) :
    Plans permit pool (action >>= next) good := by
  induction first with
  | pure made =>
      rw [pure_bind]
      exact second _ _ (.refl _) made
  | throw error proper => exact Plans.throw error proper
  | emit_bind _ ih =>
      rw [bind_assoc]
      exact .emit_bind (ih second)
  | finish_bind fresh records accepts _ ih =>
      rw [bind_assoc]
      refine .finish_bind fresh records accepts fun id => ih id fun b wider le => ?_
      exact second b wider ((Pool.le_insert _ _).trans le)
  | axis_bind accepts _ ih =>
      rw [bind_assoc]
      refine .axis_bind accepts fun id => ih id fun b wider le => ?_
      exact second b wider ((Pool.le_insert _ _).trans le)
  | placeholder_bind _ ih =>
      rw [bind_assoc]
      refine .placeholder_bind fun id => ih id fun b wider le => ?_
      exact second b wider ((Pool.le_insertTensor _ _).trans le)

theorem mono {action : BuildM α} (plans : Plans permit pool action good)
    (implied : ∀ wider a, pool.Le wider → good wider a → better wider a) :
    Plans permit pool action better := by
  rw [← bind_pure action]
  exact plans.bind fun a wider le made => .pure (implied wider a le made)

theorem throw_bind (error : BuildError) (next : β → BuildM α)
    (proper : error.isPremature = false) :
    Plans permit pool (MonadExcept.throw error >>= next) good := Plans.throw error proper

theorem valueType_bind {expr : Expr} {next : DType → BuildM α}
    (plans : ∀ dtype, expr.dtype? = some dtype → Plans permit pool (next dtype) good) :
    Plans permit pool (valueType expr >>= next) good := by
  rw [valueType]
  cases type : expr.dtype? with
  | some dtype => exact plans dtype type
  | none => exact Plans.throw _ rfl

theorem checkType_bind {dtype : DType} {next : Unit → BuildM α}
    (plans : Plans permit pool (next ()) good) :
    Plans permit pool (checkType dtype >>= next) good := by
  rw [checkType]
  cases dtype.rank with
  | ok rank => exact plans
  | error error => exact Plans.throw _ rfl

theorem liftExcept_bind {checked : Except BuildError β} {next : β → BuildM α}
    (refuses : Refuses checked) (plans : ∀ b, checked = .ok b → Plans permit pool (next b) good) :
    Plans permit pool (liftExcept checked >>= next) good := by
  cases checked with
  | ok b => exact plans b rfl
  | error error => exact Plans.throw error (refuses error rfl)

/-- Steps that each make something good of the pool as it is then. -/
theorem mapM {step : β → BuildM α} (up : ∀ {pool wider : Pool}, pool.Le wider → ∀ a, good pool a →
    good wider a) (items : List β)
    (plans : ∀ item ∈ items, ∀ wider, pool.Le wider → Plans permit wider (step item) good) :
    Plans permit pool (items.mapM step) fun wider results =>
      results.length = items.length ∧ ∀ a ∈ results, good wider a := by
  induction items generalizing pool with
  | nil => exact Plans.pure (by simp)
  | cons item rest ih =>
      rw [List.mapM_cons]
      refine (plans item (by simp) pool (.refl pool)).bind fun a wider le made => ?_
      refine (ih fun other member widest further =>
        plans other (by simp [member]) widest (le.trans further)).bind ?_
      rintro others widest further ⟨count, rest⟩
      refine Plans.pure ⟨by simp [count], fun other member => ?_⟩
      rcases List.mem_cons.mp member with rfl | later
      · exact up further _ made
      · exact rest other later

end Plans

/-! ## Constructors -/

/-- A node of the pool with a type. -/
def Typed (dtype : DType) (pool : Pool) (expr : Expr) : Prop :=
  pool.expr expr ∧ expr.dtype? = some dtype

theorem finish_plans {node : NodeId → Expr} (fresh : ∀ id, (node id).id = id)
    (records : ∀ id, permit.Records (node id))
    (accepts : ∀ id, pool.Accepts (node id)) :
    Plans permit pool (finish node) fun wider expr => wider.expr expr ∧ ∃ id, expr = node id := by
  rw [← bind_pure (finish node)]
  exact .finish_bind fresh records accepts fun id => .pure ⟨.inr rfl, id, rfl⟩

theorem constant_plans (value : Literal) (dtype : DType) :
    Plans permit pool (constant value dtype) (Typed dtype) := by
  refine Plans.checkType_bind
    ((finish_plans (fun _ => rfl) (fun _ => by trivial) fun _ => ?_).mono ?_)
  · exact ⟨by simp [Expr.operands], by simp [Expr.bounds], trivial, by simp [Expr.tensor?]⟩
  · rintro wider expr - ⟨member, id, rfl⟩
    exact ⟨member, rfl⟩

theorem axis_plans {lower upper : Bound} (low : ∀ expr ∈ lower.exprs, pool.expr expr)
    (high : ∀ expr ∈ upper.exprs, pool.expr expr) (name : String) :
    Plans permit pool (axis lower upper name) fun wider expr => wider.expr expr := by
  rw [← bind_pure (axis lower upper name)]
  refine .axis_bind (fun id => ?_) fun id => .pure (.inr rfl)
  refine ⟨by simp [Expr.operands], fun expr listed => ?_, trivial, by simp [Expr.tensor?]⟩
  rcases List.mem_append.mp listed with first | second
  · exact low expr first
  · exact high expr second

theorem castNode_plans {expr : Expr} (member : pool.expr expr) (target : DType) :
    Plans permit pool (castNode expr target) (Typed target) := by
  refine Plans.valueType_bind fun source typed => ?_
  split
  · rename_i same
    exact Plans.pure ⟨member, same ▸ typed⟩
  · rename_i different
    refine (finish_plans (fun _ => rfl) (fun _ => by trivial) fun _ => ?_).mono ?_
    · exact ⟨by simpa [Expr.operands] using member, by simp [Expr.bounds],
        ⟨source, typed, different⟩, by simp [Expr.tensor?]⟩
    · rintro wider made - ⟨inside, id, rfl⟩
      exact ⟨inside, rfl⟩

theorem implicitCast_plans {expr : Expr} (member : pool.expr expr) (target : DType) :
    Plans permit pool (implicitCast expr target) (Typed target) := by
  refine Plans.valueType_bind fun source typed => ?_
  split
  · rename_i same
    exact Plans.pure ⟨member, same ▸ typed⟩
  · exact Plans.emit_bind (castNode_plans member target)

theorem cast_plans {operand : BuildM Expr} (dtype : DType)
    (plans : Plans permit pool operand fun wider expr => wider.expr expr) :
    Plans permit pool (cast operand dtype) fun wider expr => wider.expr expr := by
  refine Plans.checkType_bind (plans.bind fun expr wider _ member => ?_)
  exact (castNode_plans member dtype).mono fun _ _ _ typed => typed.1

/-- Two nodes of the pool with types. -/
theorem castBoth_plans {lhs rhs : Expr} (left : pool.expr lhs) (right : pool.expr rhs)
    (types : DType × DType) :
    Plans permit pool (castBoth lhs rhs types) fun wider pair =>
      Typed types.1 wider pair.1 ∧ Typed types.2 wider pair.2 := by
  refine (implicitCast_plans left types.1).bind fun first wider le made => ?_
  refine (implicitCast_plans (le.expr right) types.2).bind fun second widest further made' => ?_
  exact Plans.pure ⟨⟨further.expr made.1, made.2⟩, made'⟩

theorem promote_plans {lhs rhs : Expr} (left : pool.expr lhs) (right : pool.expr rhs) :
    Plans permit pool (promote lhs rhs) fun wider pair =>
      ∃ first second, Typed first wider pair.1 ∧ Typed second wider pair.2 ∧
        first.Meets second := by
  refine Plans.valueType_bind fun leftType _ => ?_
  refine Plans.valueType_bind fun rightType _ => ?_
  refine Plans.liftExcept_bind (Promotion.arithmetic_refuses _ _) fun types passed => ?_
  refine (castBoth_plans left right types).mono fun wider pair _ made => ?_
  exact ⟨types.1, types.2, made.1, made.2, Promotion.arithmetic_meets passed⟩

theorem promoteBits_plans (kind : BinaryKind) {lhs rhs : Expr} (left : pool.expr lhs)
    (right : pool.expr rhs) :
    Plans permit pool (promoteBits kind lhs rhs) fun wider pair =>
      ∃ dtype, Typed dtype wider pair.1 ∧ Typed dtype wider pair.2 ∧ dtype.category = .int := by
  refine Plans.valueType_bind fun leftType _ => ?_
  refine Plans.valueType_bind fun rightType _ => ?_
  refine Plans.liftExcept_bind (Promotion.bitwise_refuses _ _ _) fun types passed => ?_
  obtain ⟨same, integers⟩ := Promotion.bitwise_types passed
  refine (castBoth_plans left right types).mono fun wider pair _ made => ?_
  exact ⟨types.1, made.1, same ▸ made.2, integers⟩

/-! ### Operators -/

/-- An operator has an operation for the types that it accepts. -/
theorem lower_exists {kind : BinaryKind} {dtype : DType}
    (allowed : ¬ (dtype.isFixed ∧ (kind = .floorDiv ∨ kind = .rem)))
    (bits : kind.isBitwise = true → dtype.category = .int) : ∃ op, kind.lower dtype = .ok op := by
  cases sort : dtype.category with
  | int => cases kind <;> simp [BinaryKind.lower, sort]
  | float =>
      cases kind <;> simp [BinaryKind.isBitwise, sort] at bits <;> simp [BinaryKind.lower, sort]
  | fixed =>
      have isFixed : dtype.isFixed = true := by
        cases dtype <;> simp [DType.category, DType.isFixed] at sort ⊢
      cases kind <;> simp [BinaryKind.isBitwise, sort] at bits <;> simp [isFixed] at allowed <;>
        simp [BinaryKind.lower, sort]

theorem binary_plans (kind : BinaryKind) {lhs rhs : Expr} (left : pool.expr lhs)
    (right : pool.expr rhs) :
    Plans permit pool (binary kind lhs rhs) fun wider expr => wider.expr expr := by
  have recorded : ∀ (pool : Pool) (operands : Expr × Expr) (first second : DType),
      Typed first pool operands.1 → Typed second pool operands.2 →
      first.Meets second → (kind.isBitwise = true → first.category = .int) →
      Plans permit pool (do
        let dtype ← valueType operands.1
        if dtype.isFixed ∧ (kind = .floorDiv ∨ kind = .rem) then
          throw (.unsupportedOperation kind.name dtype)
        finish fun id => .binary id dtype kind operands.1 operands.2)
        fun wider expr => wider.expr expr := by
    intro pool operands first second leftTyped rightTyped meets bits
    refine Plans.valueType_bind fun dtype typed => ?_
    obtain rfl : first = dtype := Option.some.inj (leftTyped.2.symm.trans typed)
    dsimp only
    split
    · exact Plans.throw_bind _ _ rfl
    · rename_i allowed
      refine (finish_plans (fun _ => rfl) (fun _ => by trivial) fun _ => ?_).mono
        fun _ _ _ made => made.1
      exact ⟨by simp [Expr.operands, leftTyped.1, rightTyped.1], by simp [Expr.bounds],
        ⟨typed, lower_exists allowed bits, second, rightTyped.2, meets⟩, by simp [Expr.tensor?]⟩
  rw [binary]
  split
  · refine (promoteBits_plans kind left right).bind ?_
    rintro operands wider - ⟨dtype, leftTyped, rightTyped, integers⟩
    exact recorded wider operands dtype dtype leftTyped rightTyped ⟨rfl, rfl⟩ fun _ => integers
  · rename_i arithmetic
    refine (promote_plans left right).bind ?_
    rintro operands wider - ⟨first, second, leftTyped, rightTyped, meets⟩
    exact recorded wider operands first second leftTyped rightTyped meets
      fun bits => absurd bits arithmetic

theorem compare_plans (kind : Comparison) {lhs rhs : Expr} (left : pool.expr lhs)
    (right : pool.expr rhs) :
    Plans permit pool (compare kind lhs rhs) fun wider expr => wider.expr expr := by
  refine (promote_plans left right).bind ?_
  rintro operands wider - ⟨first, second, leftTyped, rightTyped, meets⟩
  refine (finish_plans (fun _ => rfl) (fun _ => by trivial) fun _ => ?_).mono
    fun _ _ _ made => made.1
  exact ⟨by simp [Expr.operands, leftTyped.1, rightTyped.1], by simp [Expr.bounds],
    ⟨first, second, leftTyped.2, rightTyped.2, meets⟩, by simp [Expr.tensor?]⟩

theorem neg_plans {operand : Expr} (member : pool.expr operand) :
    Plans permit pool (neg operand) fun wider expr => wider.expr expr := by
  refine Plans.valueType_bind fun dtype typed => ?_
  dsimp only
  split
  · exact Plans.throw_bind _ _ rfl
  split
  · rename_i isFloat
    have float : dtype.category = .float := by
      cases dtype <;> simp [DType.isFloat, DType.category] at isFloat ⊢
    refine (finish_plans (fun _ => rfl) (fun _ => by trivial) fun _ => ?_).mono
      fun _ _ _ made => made.1
    exact ⟨by simp [Expr.operands, member], by simp [Expr.bounds], ⟨float, typed⟩,
      by simp [Expr.tensor?]⟩
  · refine (constant_plans _ _).bind fun zero wider le made => ?_
    exact binary_plans _ made.1 (le.expr member)

theorem unary_plans (kind : UnaryKind) {operand : Expr} (member : pool.expr operand) :
    Plans permit pool (unary kind operand) fun wider expr => wider.expr expr := by
  rw [unary]
  split
  · exact neg_plans member
  · refine (implicitCast_plans member _).bind fun source wider _ made => ?_
    refine (finish_plans (fun _ => rfl) (fun _ => by trivial) fun _ => ?_).mono
      fun _ _ _ done => done.1
    exact ⟨by simp [Expr.operands, made.1], by simp [Expr.bounds], ⟨rfl, made.2⟩,
      by simp [Expr.tensor?]⟩

theorem eq_bool {dtype : DType} (isBool : dtype.isBool = true) : dtype = .bool := by
  unfold DType.isBool at isBool
  split at isBool
  · rfl
  · cases isBool

theorem select_plans {condition thenValue elseValue : Expr} (first : pool.expr condition)
    (second : pool.expr thenValue) (third : pool.expr elseValue) :
    Plans permit pool (select condition thenValue elseValue)
      fun wider expr => wider.expr expr := by
  refine Plans.valueType_bind fun conditionType conditionTyped => ?_
  dsimp only
  split
  · exact Plans.throw_bind _ _ rfl
  rename_i isBool
  refine Plans.valueType_bind fun thenType thenTyped => ?_
  refine Plans.valueType_bind fun elseType elseTyped => ?_
  split
  · exact Plans.throw_bind _ _ rfl
  rename_i same
  obtain rfl : thenType = elseType := Decidable.not_not.mp same
  obtain rfl := eq_bool (by simpa using isBool)
  refine (finish_plans (fun _ => rfl) (fun _ => by trivial) fun _ => ?_).mono
    fun _ _ _ made => made.1
  exact ⟨by simp [Expr.operands, first, second, third], by simp [Expr.bounds],
    ⟨conditionTyped, thenTyped, elseTyped⟩, by simp [Expr.tensor?]⟩

theorem call_plans (may : permit.calls) (callee : String) {args : List CallArg}
    (dtype : Option DType) (members : ∀ expr ∈ CallArg.exprs args, pool.expr expr) :
    Plans permit pool (call callee args dtype) fun wider expr => wider.expr expr := by
  have recorded : Plans permit pool (finish fun id => .call id dtype callee args)
      fun wider expr => wider.expr expr := by
    refine (finish_plans (fun _ => rfl) (fun _ => by exact may) fun _ => ?_).mono
      fun _ _ _ made => made.1
    exact ⟨members, by simp [Expr.bounds], trivial, by simp [Expr.tensor?]⟩
  cases dtype with
  | none => exact recorded
  | some result => exact Plans.checkType_bind recorded

theorem getBit_plans {value bit : Expr} (first : pool.expr value) (second : pool.expr bit) :
    Plans permit pool (getBit value bit) fun wider expr => wider.expr expr := by
  refine Plans.valueType_bind fun valueType valueTyped => ?_
  dsimp only
  split
  · exact Plans.throw_bind _ _ rfl
  rename_i isInt
  refine Plans.valueType_bind fun bitType _ => ?_
  split
  · exact Plans.throw_bind _ _ rfl
  refine (implicitCast_plans second _).bind fun position wider le made => ?_
  refine (finish_plans (fun _ => rfl) (fun _ => by trivial) fun _ => ?_).mono
    fun _ _ _ done => done.1
  exact ⟨by simp [Expr.operands, le.expr first, made.1], by simp [Expr.bounds],
    ⟨⟨valueType, valueTyped, by simpa using isInt⟩, made.2⟩, by simp [Expr.tensor?]⟩

theorem reduceInto_plans (kind : ReduceKind) {body : Expr} {axes : List Expr} (dtype : DType)
    (first : pool.expr body) (rest : ∀ axis ∈ axes, pool.expr axis) :
    Plans permit pool (reduceInto kind body axes dtype) fun wider expr => wider.expr expr := by
  refine Plans.checkType_bind
    ((finish_plans (fun _ => rfl) (fun _ => by trivial) fun _ => ?_).mono fun _ _ _ made => made.1)
  exact ⟨by simpa [Expr.operands] using ⟨first, rest⟩, by simp [Expr.bounds], trivial,
    by simp [Expr.tensor?]⟩

theorem reduce_plans (kind : ReduceKind) {body : Expr} {axes : List Expr} (first : pool.expr body)
    (rest : ∀ axis ∈ axes, pool.expr axis) :
    Plans permit pool (reduce kind body axes) fun wider expr => wider.expr expr :=
  Plans.valueType_bind fun dtype _ => reduceInto_plans kind dtype first rest

/-! ### Indexing -/

theorem indexExpr_plans {arg : IndexArg} (member : pool.index arg) :
    Plans permit pool (indexExpr arg) fun wider expr => wider.expr expr := by
  cases arg with
  | expr value => exact Plans.pure member
  | const value => exact (constant_plans _ _).mono fun _ _ _ made => made.1

theorem indexExprs_plans {args : List IndexArg} (members : ∀ arg ∈ args, pool.index arg) :
    Plans permit pool (args.mapM indexExpr) fun wider exprs =>
      exprs.length = args.length ∧ ∀ expr ∈ exprs, wider.expr expr := by
  have made : ∀ arg ∈ args, ∀ wider, pool.Le wider →
      Plans permit wider (indexExpr arg) fun widest expr => widest.expr expr :=
    fun arg listed wider le => indexExpr_plans (le.index (members arg listed))
  refine Plans.mapM ?_ args made
  exact fun le expr member => le.expr member

theorem checkRank_bind {tensor : Tensor} {given : Nat} {next : Unit → BuildM α}
    {good : Pool → α → Prop} (plans : given ≤ tensor.rank → Plans permit pool (next ()) good) :
    Plans permit pool (checkRank tensor given >>= next) good := by
  unfold checkRank
  split
  · exact Plans.throw_bind _ _ rfl
  · rename_i allowed
    exact plans (Nat.le_of_not_lt allowed)

theorem indexSlice_plans {slice : Slice} {args : List IndexArg} (whole : pool.slice slice)
    (members : ∀ arg ∈ args, pool.index arg)
    (may : slice.indices.length + args.length = slice.tensor.rank → permit.loads slice.tensor) :
    Plans permit pool (indexSlice slice args) fun wider made => wider.indexed made := by
  refine checkRank_bind fun allowed => (indexExprs_plans members).bind ?_
  rintro indices wider le ⟨count, made⟩
  have inside : ∀ index ∈ slice.indices ++ indices, wider.expr index := by
    intro index listed
    rcases List.mem_append.mp listed with old | new
    · exact le.expr (whole.2 index old)
    · exact made index new
  split
  · exact Plans.pure ⟨le.tensor whole.1, inside⟩
  · rename_i full
    have full : slice.indices.length + args.length = slice.tensor.rank :=
      Nat.le_antisymm allowed (Nat.le_of_not_lt full)
    refine Plans.bind (finish_plans (fun _ => rfl) (fun _ => may full) fun _ => ?_)
      fun expr widest _ done => Plans.pure done.1
    refine ⟨inside, by simp [Expr.bounds], ?_, fun tensor same => ?_⟩
    · rw [Expr.Formed, List.length_append, count]
      exact full
    · cases same
      exact le.tensor whole.1

theorem whole_slice {tensor : Tensor} (member : pool.tensor tensor) : pool.slice (.whole tensor) :=
  ⟨member, by simp [Slice.whole]⟩

theorem load_plans {tensor : Tensor} {args : List IndexArg} (member : pool.tensor tensor)
    (members : ∀ arg ∈ args, pool.index arg) (may : permit.loads tensor) :
    Plans permit pool (load tensor args) fun wider expr => wider.expr expr := by
  refine (indexSlice_plans (whole_slice member) members fun _ => may).bind
    fun made wider _ good => ?_
  cases made with
  | slice slice => exact Plans.throw _ rfl
  | load expr => exact Plans.pure good

theorem storedValue_plans (tensor : Tensor) {value : Expr} (member : pool.expr value) :
    Plans permit pool (storedValue tensor value) (Typed tensor.dtype) := by
  refine Plans.valueType_bind fun dtype typed => ?_
  split
  · rename_i same
    exact Plans.pure ⟨member, same ▸ typed⟩
  · exact Plans.emit_bind (castNode_plans member tensor.dtype)

/-- The value and the indices of a store, before its node is recorded. -/
def storeParts (value : BuildM Expr) (slice : Slice) (args : List IndexArg) :
    BuildM (Expr × List Expr) := do
  let given := slice.indices.length + args.length
  checkRank slice.tensor given
  if given ≠ slice.tensor.rank then
    throw (.partialWrite slice.tensor.name slice.tensor.rank given)
  let stored ← storedValue slice.tensor (← value)
  let indices ← args.mapM indexExpr
  return (stored, slice.indices ++ indices)

theorem storeSlice_eq (value : BuildM Expr) (slice : Slice) (args : List IndexArg) :
    storeSlice value slice args = storeParts value slice args >>= fun parts =>
      finish fun id => .store id slice.tensor parts.1 parts.2 := by
  simp only [storeSlice, storeParts, bind_assoc]
  refine bind_congr fun _ => ?_
  split
  · rfl
  · simp only [pure_bind, bind_assoc]

theorem storeParts_plans {value : BuildM Expr} {slice : Slice} {args : List IndexArg}
    (plans : Plans permit pool value fun wider expr => wider.expr expr) (whole : pool.slice slice)
    (members : ∀ arg ∈ args, pool.index arg) :
    Plans permit pool (storeParts value slice args) fun wider parts =>
      ∀ id, wider.Accepts (.store id slice.tensor parts.1 parts.2) := by
  refine checkRank_bind fun _ => ?_
  dsimp only
  split
  · exact Plans.throw_bind _ _ rfl
  rename_i covers
  refine plans.bind fun expr first le member => ?_
  refine (storedValue_plans slice.tensor member).bind fun stored second further made => ?_
  have le := le.trans further
  refine (indexExprs_plans fun arg listed => le.index (members arg listed)).bind ?_
  rintro indices third last ⟨count, inside⟩
  refine Plans.pure fun id => ?_
  refine ⟨fun operand listed => ?_, by simp [Expr.bounds], ⟨made.2, ?_⟩, fun tensor same => ?_⟩
  · rcases List.mem_cons.mp listed with rfl | listed
    · exact last.expr made.1
    · rcases List.mem_append.mp listed with old | new
      · exact (le.trans last).expr (whole.2 operand old)
      · exact inside operand new
  · rw [List.length_append, count]
    exact Decidable.not_not.mp covers
  · cases same
    exact (le.trans last).tensor whole.1

theorem storeSlice_plans {value : BuildM Expr} {slice : Slice} {args : List IndexArg}
    (plans : Plans permit pool value fun wider expr => wider.expr expr) (whole : pool.slice slice)
    (members : ∀ arg ∈ args, pool.index arg) (may : permit.stores slice.tensor) :
    Plans permit pool (storeSlice value slice args) fun wider expr => wider.expr expr := by
  rw [storeSlice_eq]
  refine (storeParts_plans plans whole members).bind fun parts wider _ accepts => ?_
  exact (finish_plans (fun _ => rfl) (fun _ => by exact may) accepts).mono fun _ _ _ made => made.1

theorem scalarIndices_bind {tensor : Tensor} {next : List IndexArg → BuildM α}
    {good : Pool → α → Prop}
    (plans : ∀ args, (∀ arg ∈ args, pool.index arg) → Plans permit pool (next args) good) :
    Plans permit pool (scalarIndices tensor >>= next) good := by
  unfold scalarIndices
  split
  · refine plans _ fun arg listed => ?_
    rw [List.eq_of_mem_replicate listed]
    trivial
  · exact Plans.throw_bind _ _ rfl

theorem scalar_plans {tensor : Tensor} (member : pool.tensor tensor) (may : permit.loads tensor) :
    Plans permit pool (scalar tensor) fun wider expr => wider.expr expr :=
  scalarIndices_bind fun _ members => load_plans member members may

theorem setScalar_plans {value : BuildM Expr} {tensor : Tensor}
    (plans : Plans permit pool value fun wider expr => wider.expr expr)
    (member : pool.tensor tensor) (may : permit.stores tensor) :
    Plans permit pool (setScalar value tensor) fun wider expr => wider.expr expr :=
  scalarIndices_bind fun _ members => storeSlice_plans plans (whole_slice member) members may

theorem bit_plans {source : Expr} {args : List IndexArg} (member : pool.expr source)
    (members : ∀ arg ∈ args, pool.index arg) :
    Plans permit pool (bit source args) fun wider expr => wider.expr expr := by
  simp only [bit]
  by_cases isLoad : source.isLoad
  case neg =>
    simp only [isLoad]
    exact Plans.throw_bind _ _ rfl
  by_cases isInt : source.dtype?.any DType.isInt
  case neg =>
    simp only [isLoad, isInt]
    exact Plans.throw_bind _ _ rfl
  simp only [isLoad, isInt, Bool.not_true, Bool.false_eq_true, ↓reduceIte]
  split
  · rename_i arg
    refine (indexExpr_plans (members arg (by simp))).bind fun position wider le made => ?_
    exact getBit_plans (le.expr member) made
  · exact Plans.throw _ rfl

theorem placeholder_plans (name : String) (shape : List Nat) (dtype : DType) :
    Plans permit pool (placeholder name shape dtype) fun wider tensor => wider.tensor tensor := by
  rw [← bind_pure (placeholder name shape dtype)]
  exact .placeholder_bind fun id => .pure (.inr rfl)

/-! ## What plans keep -/

/-- From the nodes of a pool an action makes something good in a wider pool. An invariant of pools
and contexts holds afterwards, and a relation between the contexts before and after, also when the
action fails. -/
def Follows (inv : Pool → Context → Prop) (relates : Context → Context → Prop) (pool : Pool)
    (action : BuildM α) (good : Pool → α → Prop) : Prop :=
  ∀ context, inv pool context → Ensures action context
    (fun a after => relates context after ∧ ∃ wider, pool.Le wider ∧ inv wider after ∧ good wider a)
    (fun after => relates context after ∧ ∃ wider, pool.Le wider ∧ inv wider after)

/-- An action over the pool as it is. -/
theorem Follows.of_ensures {inv : Pool → Context → Prop}
    {relates : Context → Context → Prop} {action : BuildM α}
    (ensures : ∀ context, inv pool context → Ensures action context
      (fun _ after => relates context after ∧ inv pool after)
      (fun after => relates context after ∧ inv pool after)) :
    Follows inv relates pool action fun _ _ => True := fun context holds =>
  (ensures context holds).mono (fun _ _ kept => ⟨kept.1, pool, .refl pool, kept.2, trivial⟩)
    fun _ kept => ⟨kept.1, pool, .refl pool, kept.2⟩

/-- Only insertion points and events may differ. -/
structure Still (before after : Context) : Prop where
  module : after.module = before.module
  mode : after.mode = before.mode
  bindings : after.bindings = before.bindings
  regionNodes : after.regionNodes = before.regionNodes
  regions : after.regions = before.regions
  storage : after.storage = before.storage
  nextId : after.nextId = before.nextId

/-- An invariant of pools and contexts, and a relation between contexts, that all steps of plans
keep, and that building the nodes of the pool keeps. -/
structure Tracks (inv : Pool → Context → Prop) (relates : Context → Context → Prop) : Prop where
  chains : Chains relates
  still : ∀ {pool : Pool} {before after : Context}, Still before after → inv pool before →
    relates before after ∧ inv pool after
  insert : ∀ {pool : Pool} {context : Context} {expr : Expr}, expr.id = context.nextId →
    pool.Accepts expr → inv pool context →
    relates context { context with nextId := context.nextId + 1 } ∧
      inv (pool.insert expr) { context with nextId := context.nextId + 1 }
  insertTensor : ∀ {pool : Pool} {context : Context} {tensor : Tensor}, tensor.id = context.nextId →
    inv pool context →
    relates context { context with nextId := context.nextId + 1 } ∧
      inv (pool.insertTensor tensor) { context with nextId := context.nextId + 1 }
  build : ∀ {pool : Pool} {context : Context} {expr : Expr}, pool.expr expr → inv pool context →
    Ensures (build expr) context (fun _ after => relates context after ∧ inv pool after)
      (fun after => relates context after ∧ inv pool after)
  allocTensor : ∀ {pool : Pool} {context : Context} {tensor : Tensor}, pool.tensor tensor →
    inv pool context →
    Ensures (allocTensor tensor) context (fun _ after => relates context after ∧ inv pool after)
      (fun after => relates context after ∧ inv pool after)

namespace Tracks

variable {inv : Pool → Context → Prop} {relates : Context → Context → Prop}
  (tracks : Tracks inv relates)
include tracks

theorem pure {a : α} {good : Pool → α → Prop} (made : good pool a) :
    Follows inv relates pool (Pure.pure a) good :=
  fun context holds => ⟨tracks.chains.refl context, pool, .refl pool, holds, made⟩

theorem throw (error : BuildError) {good : Pool → α → Prop} :
    Follows inv relates pool (MonadExcept.throw error) good :=
  fun context holds => ⟨tracks.chains.refl context, pool, .refl pool, holds⟩

/-- A first step that leaves its context related to the one before, within a wider pool. -/
theorem after {action : BuildM α} {good : Pool → α → Prop} {before context : Context}
    {wider : Pool} (step : relates before context) (le : pool.Le wider) (holds : inv wider context)
    (follows : Follows inv relates wider action good) :
    Ensures action context
      (fun a after => relates before after ∧
        ∃ widest, pool.Le widest ∧ inv widest after ∧ good widest a)
      (fun after => relates before after ∧ ∃ widest, pool.Le widest ∧ inv widest after) := by
  refine (follows context holds).mono ?_ ?_
  · rintro a after ⟨later, widest, further, kept, made⟩
    exact ⟨tracks.chains.trans step later, widest, le.trans further, kept, made⟩
  · rintro after ⟨later, widest, further, kept⟩
    exact ⟨tracks.chains.trans step later, widest, le.trans further, kept⟩

theorem bind {action : BuildM β} {next : β → BuildM α} {middle : Pool → β → Prop}
    {good : Pool → α → Prop} (first : Follows inv relates pool action middle)
    (second : ∀ b wider, pool.Le wider → middle wider b →
      Follows inv relates wider (next b) good) :
    Follows inv relates pool (action >>= next) good := by
  intro context holds
  rw [ensures_bind]
  refine (first context holds).mono ?_ fun _ failed => failed
  rintro b after ⟨step, wider, le, kept, made⟩
  exact tracks.after step le kept (second b wider le made)

/-- A new node that is built at once, perhaps, is in the pool in any case. -/
theorem finish {context : Context} (holds : inv pool context) {node : NodeId → Expr}
    (fresh : ∀ id, (node id).id = id) (accepts : ∀ id, pool.Accepts (node id)) :
    Ensures (finish node) context
      (fun expr after => expr = node context.nextId ∧ relates context after ∧
        inv (pool.insert expr) after)
      (fun after => relates context after ∧ inv (pool.insert (node context.nextId)) after) := by
  obtain ⟨step, grown⟩ := tracks.insert (fresh context.nextId) (accepts context.nextId) holds
  simp only [BuildM.finish, ensures_bind, ensures_freshId, ensures_get]
  split
  · simp only [ensures_bind, ensures_pure]
    have member : (pool.insert (node context.nextId)).expr (node context.nextId) := .inr rfl
    refine (tracks.build member grown).mono ?_ ?_
    · exact fun _ after kept => ⟨trivial, tracks.chains.trans step kept.1, kept.2⟩
    · exact fun after kept => ⟨tracks.chains.trans step kept.1, kept.2⟩
  · exact ⟨rfl, step, grown⟩

/-- All steps of a plan. -/
theorem plans {action : BuildM α} {good : Pool → α → Prop}
    (plans : Plans permit pool action good) : Follows inv relates pool action good := by
  induction plans with
  | pure made => exact tracks.pure made
  | throw error => exact tracks.throw error
  | @emit_bind _ event _ _ _ ih =>
      intro context holds
      rw [ensures_bind, ensures_emit]
      have still : Still context (context.emit event) := ⟨rfl, rfl, rfl, rfl, rfl, rfl, rfl⟩
      obtain ⟨step, kept⟩ := tracks.still still holds
      exact tracks.after step (.refl _) kept ih
  | finish_bind fresh _ accepts _ ih =>
      intro context holds
      rw [ensures_bind]
      refine (tracks.finish holds fresh accepts).mono ?_ fun after failed =>
        ⟨failed.1, _, Pool.le_insert _ _, failed.2⟩
      rintro _ after ⟨rfl, step, kept⟩
      exact tracks.after step (Pool.le_insert _ _) kept (ih _)
  | axis_bind accepts _ ih =>
      intro context holds
      simp only [axis, ensures_bind, ensures_freshId, ensures_pure]
      obtain ⟨step, grown⟩ := tracks.insert rfl (accepts context.nextId) holds
      exact tracks.after step (Pool.le_insert _ _) grown (ih _)
  | @placeholder_bind pool name shape dtype _ _ _ ih =>
      intro context holds
      simp only [placeholder, ensures_bind, ensures_freshId, ensures_pure]
      have fresh : (⟨context.nextId, name, shape, dtype⟩ : Tensor).id = context.nextId := rfl
      obtain ⟨step, grown⟩ := tracks.insertTensor fresh holds
      exact tracks.after step (Pool.le_insertTensor _ _) grown (ih _)

/-- All steps of a plan that may record any nodes. -/
theorem free {action : BuildM α} {good : Pool → α → Prop}
    (plans : Plans .all pool action good) : Follows inv relates pool action good :=
  tracks.plans plans

theorem builds {expr : Expr} (member : pool.expr expr) :
    Follows inv relates pool (BuildM.build expr) fun _ _ => True :=
  Follows.of_ensures fun _ => tracks.build member

theorem needValue (name : String) (binding : Binding) :
    Follows inv relates pool (BuildM.needValue name binding) fun _ _ => True := by
  cases binding with
  | value value => exact tracks.pure trivial
  | op id => exact tracks.throw _

theorem buildValue {expr : Expr} (member : pool.expr expr) :
    Follows inv relates pool (BuildM.buildValue expr) fun _ _ => True :=
  tracks.bind (tracks.builds member) fun binding _ _ _ => tracks.needValue _ binding

theorem buildAll {exprs : List Expr} (members : ∀ expr ∈ exprs, pool.expr expr) :
    Follows inv relates pool (BuildM.buildAll exprs) fun _ _ => True := by
  induction exprs generalizing pool with
  | nil => exact tracks.pure trivial
  | cons expr rest ih =>
      refine tracks.bind (tracks.builds (members expr (by simp))) fun _ wider le _ => ?_
      exact ih fun other listed => le.expr (members other (by simp [listed]))

theorem alloc (name : String) (shape : List Nat) (dtype : DType) :
    Follows inv relates pool (BuildM.alloc name shape dtype) fun wider tensor =>
      wider.tensor tensor := by
  refine tracks.bind (tracks.free (placeholder_plans name shape dtype)) ?_
  intro tensor wider _ member
  refine tracks.bind (Follows.of_ensures fun _ => tracks.allocTensor member) ?_
  exact fun _ widest le _ => tracks.pure (le.tensor member)

theorem restorePoint : Follows inv relates pool BuildM.restorePoint fun _ _ => True := by
  refine Follows.of_ensures fun context holds => ?_
  simp only [BuildM.restorePoint, ensures_bind, ensures_get]
  split
  · exact ⟨tracks.chains.refl context, holds⟩
  · simp only [ensures_bind, ensures_set, ensures_emit, ensures_pure]
    exact tracks.still ⟨rfl, rfl, rfl, rfl, rfl, rfl, rfl⟩ holds

theorem currentPoint : Follows inv relates pool BuildM.currentPoint fun _ _ => True := by
  refine Follows.of_ensures fun context holds => ?_
  simp only [BuildM.currentPoint, ensures_bind, ensures_get]
  split <;> exact ⟨tracks.chains.refl context, holds⟩

end Tracks

/-! ## The pool stays upheld -/

/-- Upholding the pool is an invariant of plans, whatever the epoch. -/
theorem upholds_tracks (epoch : Epoch) :
    Tracks (fun pool context => context.Upholds epoch pool) fun _ _ => True where
  chains := ⟨fun _ => trivial, fun _ _ => trivial⟩
  still still upholds := ⟨trivial, upholds.mono still.module
    (fun _ _ found => by rwa [Context.binding?, still.bindings] at found) still.storage
    (Nat.le_of_eq still.nextId.symm)⟩
  insert := by
    intro pool context expr fresh accepts upholds
    have later : ({ context with nextId := context.nextId + 1 } : Context).Upholds epoch pool :=
      upholds.mono rfl (fun _ _ found => found) rfl (Nat.le_succ _)
    exact ⟨trivial, later.widen (pool.le_insert expr) (upholds.sound.insert fresh accepts)⟩
  insertTensor := by
    intro pool context tensor fresh upholds
    have later : ({ context with nextId := context.nextId + 1 } : Context).Upholds epoch pool :=
      upholds.mono rfl (fun _ _ found => found) rfl (Nat.le_succ _)
    exact ⟨trivial, later.widen (pool.le_insertTensor tensor) (upholds.sound.insertTensor fresh)⟩
  build := fun {_ _ expr} member upholds =>
    (build_types upholds.sound expr member _ upholds (.refl _)).mono
      (fun _ _ done => ⟨trivial, done.1⟩) fun _ upheld => ⟨trivial, upheld⟩
  allocTensor := fun member upholds =>
    (allocTensor_types member _ upholds (.refl _)).mono
      (fun _ _ done => ⟨trivial, done.1⟩) fun _ upheld => ⟨trivial, upheld⟩

/-- From the nodes of a pool an action makes something good in a wider pool; the pool stays upheld,
also when the action fails. -/
def Makes (pool : Pool) (action : BuildM α) (good : Pool → α → Prop) : Prop :=
  ∀ (epoch : Epoch) (context : Context), context.Upholds epoch pool →
    Ensures action context
      (fun a after => ∃ wider, pool.Le wider ∧ after.Upholds epoch wider ∧ good wider a)
      (fun after => ∃ wider, pool.Le wider ∧ after.Upholds epoch wider)

namespace Makes

variable {action : BuildM β} {next : β → BuildM α} {middle : Pool → β → Prop}
  {good : Pool → α → Prop}

theorem bind (first : Makes pool action middle)
    (second : ∀ b wider, pool.Le wider → middle wider b → Makes wider (next b) good) :
    Makes pool (action >>= next) good := by
  intro epoch context upholds
  rw [ensures_bind]
  refine (first epoch context upholds).mono ?_ fun _ failed => failed
  rintro b after ⟨wider, le, upheld, made⟩
  refine (second b wider le made epoch after upheld).mono ?_ ?_
  · rintro a last ⟨widest, further, upheld, result⟩
    exact ⟨widest, le.trans further, upheld, result⟩
  · rintro last ⟨widest, further, upheld⟩
    exact ⟨widest, le.trans further, upheld⟩

theorem of_follows {action : BuildM α} (follows : ∀ epoch, Follows
    (fun pool context => context.Upholds epoch pool) (fun _ _ => True) pool action good) :
    Makes pool action good := fun epoch context upholds =>
  (follows epoch context upholds).mono (fun _ _ made => made.2) fun _ failed => failed.2

/-- An action that constructs nothing. -/
theorem of_types {action : BuildM α} {good : Epoch → Module → α → Prop}
    (types : ∀ {epoch : Epoch} {base : Module} {next : NodeId}, pool.Sound next →
      Types epoch pool base action (good epoch)) :
    Makes pool action fun _ _ => True := by
  intro epoch context upholds
  refine (types upholds.sound context upholds (.refl _)).mono ?_ ?_
  · rintro a after ⟨upheld, -, -⟩
    exact ⟨pool, .refl pool, upheld, trivial⟩
  · exact fun after upheld => ⟨pool, .refl pool, upheld⟩

end Makes

/-- The steps of a plan keep the pool upheld, and widen it. -/
theorem Plans.makes {action : BuildM α} {good : Pool → α → Prop}
    (plans : Plans permit pool action good) : Makes pool action good :=
  .of_follows fun epoch => (upholds_tracks epoch).plans plans

theorem Plans.makes_of_free {action : BuildM α} {good : Pool → α → Prop}
    (plans : Plans .all pool action good) : Makes pool action good := plans.makes

/-! ### Loops -/

/-- A new loop with its variable, which is to be bound to the counter of the loop. -/
theorem beginLoop_makes {epoch : Epoch} {context : Context} (upholds : context.Upholds epoch pool)
    {lower upper : Bound} (low : ∀ expr ∈ lower.exprs, pool.expr expr)
    (high : ∀ expr ∈ upper.exprs, pool.expr expr) (spec : LoopSpec) :
    Ensures (beginLoop lower upper spec) context
      (fun made after => ∃ wider, pool.Le wider ∧ after.Upholds epoch wider ∧
        wider.expr made.1 ∧ made.1.dtype? = some .index ∧
        after.module.Yields epoch made.2.counter .index)
      (fun after => ∃ wider, pool.Le wider ∧ after.Upholds epoch wider) := by
  have accepts : pool.Accepts (.loopVar context.nextId (spec.name.getD "")) :=
    ⟨by simp [Expr.operands], by simp [Expr.bounds], trivial, by simp [Expr.tensor?]⟩
  have grown := ((upholds_tracks epoch).insert rfl accepts upholds).2
  have le := pool.le_insert (.loopVar context.nextId (spec.name.getD ""))
  have looped : ∀ {base : Module}, Types epoch
      (pool.insert (.loopVar context.nextId (spec.name.getD ""))) base (do
        let low ← buildBound lower
        let high ← buildBound upper
        emitLoop low high spec) fun module header => module.Yields epoch header.counter .index := by
    intro base
    refine (buildBound_types grown.sound lower fun expr listed => le.expr (low expr listed)).bind
      fun low first _ fits => ?_
    refine (buildBound_types grown.sound upper fun expr listed => le.expr (high expr listed)).bind
      fun high second retains fitsHigh => ?_
    exact emitLoop_types (fits.of_retains retains) fitsHigh
  have whole : beginLoop lower upper spec = freshId >>= fun id => (do
      let low ← buildBound lower
      let high ← buildBound upper
      emitLoop low high spec) >>= fun header =>
        pure (.loopVar id (spec.name.getD ""), header) := by
    simp only [beginLoop, bind_assoc]
  rw [whole, ensures_bind, ensures_freshId, ensures_bind]
  refine (looped _ grown (.refl _)).mono ?_ fun after upheld => ⟨_, le, upheld⟩
  rintro header after ⟨upheld, -, counts⟩
  exact ⟨_, le, upheld, .inr rfl, rfl, counts⟩

end BuildM

end AffineKernel
