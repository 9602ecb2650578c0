import AffineKernel.Proofs.Build.Nodes
import AffineKernel.Proofs.Build.Promotion
import AffineKernel.Proofs.Build.Sharing
import AffineKernel.Proofs.Script.Sharing
import AffineKernel.Proofs.Semantics.Comparison
import AffineKernel.Proofs.Semantics.Representatives
import AffineKernel.Proofs.Simulation.Expressions

/-!
# Building comparisons

What the operations compute that building a comparison adds to a module, and
what the operands have to be for that.

A comparison reads its result off two values. Between operands of one type it
is a single operation on the values of its operands
(`BuildM.build_compare_defines`). Operands of two types are cast first, and
in the in-place mode the casts are built before the comparison is; either way
the scalar of the comparison follows from those of the operands by the casts
and the comparison of what they make (`BuildM.compare_derives`).

The second statement follows the building step by step, through contexts that
differ between the modes. `Context.Brings` says what matters of a node that
stands for an operand: it is the operand, or a cast that nothing is bound to yet
but the operand brought to the type. Building other nodes preserves this,
since they bind none but themselves and older ones. No binding is lost on the
way (`BuildM.grounded_tracks`), so the values of the operands are those that the
last context binds them to.
-/

set_option autoImplicit false

namespace AffineKernel

namespace BuildM

variable {context after : Context}

theorem buildValue_eq_ok {expr : Expr} {value : Value} :
    buildValue expr context = .ok value after ↔
      build expr context = .ok (.value value) after := by
  constructor
  · intro built
    obtain ⟨binding, middle, made, needed⟩ := EStateM.bind_eq_ok built
    cases binding with
    | op id => cases needed
    | value other =>
        cases needed
        exact made
  · intro built
    simp only [buildValue, bind, EStateM.bind, built]
    rfl

/-- A node that was constructed, in either mode. -/
theorem finish_eq_ok {node : NodeId → Expr} {expr : Expr}
    (finished : finish node context = .ok expr after) :
    expr = node context.nextId ∧
      (after = { context with nextId := context.nextId + 1 } ∨
        ∃ binding,
          build expr { context with nextId := context.nextId + 1 } = .ok binding after) := by
  obtain ⟨id, middle, fresh, finished⟩ := EStateM.bind_eq_ok finished
  cases fresh
  simp only [EStateM.get_bind_apply] at finished
  split at finished
  · obtain ⟨binding, last, built, same⟩ := EStateM.bind_eq_ok finished
    cases same
    exact ⟨rfl, .inr ⟨binding, built⟩⟩
  · cases finished
    exact ⟨rfl, .inl rfl⟩

/-- In either mode, a node that is constructed and then built is built once. -/
theorem finish_build {node : NodeId → Expr} {expr : Expr} {binding : Binding} {middle : Context}
    (finished : finish node context = .ok expr middle)
    (built : build expr middle = .ok binding after) :
    build expr { context with nextId := context.nextId + 1 } = .ok binding after := by
  obtain ⟨-, rfl | ⟨other, first⟩⟩ := finish_eq_ok finished
  · exact built
  · rw [build_of_bound (build_bound first)] at built
    cases built
    exact first

/-! ## Single operations -/

/-- An operation with one result was added, as a draft says. -/
structure Adds (kind : OpKind) (operands : List Value) (type : ValueType)
    (attributes : List (String × Attribute)) (value : Value) (before after : Context) : Prop where
  value : value = .result ⟨before.module.ops.size⟩ 0
  retains : before.module.Retains after.module
  bindings : after.bindings = before.bindings
  carries : ∃ op, after.module.Carries ⟨before.module.ops.size⟩ op
    { kind, operands, results := [type], attributes }

theorem createValue_adds {kind : OpKind} {operands : List Value} {type : ValueType}
    {attributes : List (String × Attribute)} {value : Value}
    (created : createValue kind operands type attributes context = .ok value after) :
    Adds kind operands type attributes value context after := by
  have adds : Ensures (createValue kind operands type attributes) context
      (Adds kind operands type attributes · context ·) (fun _ => True) := by
    rw [createValue, ensures_bind]
    refine ensures_create (fun point rest stack => ?_) fun _ => trivial
    rw [ensures_pure]
    exact
      { value := rfl
        retains := .create _ _ _
        bindings := rfl
        carries := ⟨_, Module.op?_create_self, rfl, rfl, rfl, rfl⟩ }
  exact adds.of_ok created

/-- Binding a node to the value of the operation leaves the other nodes bound as before it. -/
theorem Adds.binding?_bind {kind : OpKind} {operands : List Value} {type : ValueType}
    {attributes : List (String × Attribute)} {value : Value}
    (adds : Adds kind operands type attributes value context after) {id other : NodeId}
    (ne : id ≠ other) : (after.bind id (.value value)).binding? other = context.binding? other := by
  rw [Context.binding?_bind, if_neg ne, Context.binding?, adds.bindings, Context.binding?]

/-- The comparison operation that was added to a context. -/
theorem emitCompare_defines {kind : Comparison} {dtype : DType} {a b value : Value}
    (emitted : emitCompare kind dtype a b context = .ok value after)
    (typed : context.module.valueType? a = some (.scalar dtype)) :
    ∃ op, value = .result op 0 ∧ ∀ (module : Module) (run : Machine.RunBlock) (frame : Frame)
      (machine : Machine) (lhs rhs : Scalar), after.module.Retains module →
      frame.find? a = some (.scalar lhs) → frame.find? b = some (.scalar rhs) →
      Machine.Defines module run op frame machine (Meaning.compare kind dtype lhs rhs) := by
  have adds := createValue_adds emitted
  obtain ⟨op, carries⟩ := adds.carries
  refine ⟨_, adds.value, fun module run frame machine lhs rhs retains left right => ?_⟩
  have attr : op.attr? "predicate" = some (.int64 (kind.code dtype)) := by
    rw [Operation.attr?, carries.attributes]
    rfl
  exact Machine.compare_defines (retains.op? carries.found) carries.kind carries.operands attr
    ((adds.retains.trans retains).valueType? typed) left right

/-! ## Comparisons -/

theorem valueType_eq_ok {expr : Expr} {dtype : DType}
    (read : valueType expr context = .ok dtype after) :
    expr.dtype? = some dtype ∧ after = context := by
  have known : Ensures (valueType expr) context
      (fun dtype after => expr.dtype? = some dtype ∧ after = context) (fun _ => True) :=
    ensures_valueType (fun _ typed => ⟨typed, rfl⟩) trivial
  exact known.of_ok read

/-- The value of an operand was built, and then something was done with it. -/
theorem operand_eq_ok {α : Type} {expr : Expr} {next : Value → BuildM α} {a : α}
    (built : (build expr >>= fun binding => needValue expr.name binding >>= next) context =
      .ok a after) :
    ∃ value middle, build expr context = .ok (.value value) middle ∧
      next value middle = .ok a after := by
  rw [← bind_assoc] at built
  obtain ⟨value, middle, made, rest⟩ := EStateM.bind_eq_ok built
  exact ⟨value, middle, buildValue_eq_ok.mp made, rest⟩

/-- A comparison that was built: its left operand, its right operand, and an operation. -/
theorem build_compare_eq_ok {id : NodeId} {kind : Comparison} {lhs rhs : Expr} {value : Value}
    (unbound : context.binding? id = none)
    (built : build (.compare id kind lhs rhs) context = .ok (.value value) after) :
    ∃ dtype a b reached last made, lhs.dtype? = some dtype ∧
      build lhs (context.emit (.materialize id "compare")) = .ok (.value a) reached ∧
      build rhs reached = .ok (.value b) last ∧
      emitCompare kind dtype a b last = .ok value made ∧ after = made.bind id (.value value) := by
  rw [build] at built
  obtain ⟨_, made, ⟨⟩, acted, same⟩ := onceValue_eq_ok unbound built
  obtain ⟨dtype, middle, read, acted⟩ := EStateM.bind_eq_ok acted
  obtain ⟨type, rfl⟩ := valueType_eq_ok read
  obtain ⟨a, reached, left, acted⟩ := operand_eq_ok acted
  obtain ⟨b, last, right, emitted⟩ := operand_eq_ok acted
  exact ⟨dtype, a, b, reached, last, made, type, left, right, emitted, same⟩

/-- A comparison of nodes of a pool that was built defines its value from those of its operands. -/
theorem build_compare_defines {epoch : Epoch} {pool : Pool} {id : NodeId} {kind : Comparison}
    {lhs rhs : Expr} {value : Value} {dtype : DType} (upholds : context.Upholds epoch pool)
    (member : pool.expr (.compare id kind lhs rhs)) (type : lhs.dtype? = some dtype)
    (unbound : context.binding? id = none)
    (built : build (.compare id kind lhs rhs) context = .ok (.value value) after) :
    ∃ a b op reached last,
      build lhs (context.emit (.materialize id "compare")) = .ok (.value a) reached ∧
      build rhs reached = .ok (.value b) last ∧ value = .result op 0 ∧
      ∀ (module : Module) (run : Machine.RunBlock) (frame : Frame) (machine : Machine)
        (lhs rhs : Scalar), after.module.Retains module →
        frame.find? a = some (.scalar lhs) → frame.find? b = some (.scalar rhs) →
        Machine.Defines module run op frame machine (Meaning.compare kind dtype lhs rhs) := by
  obtain ⟨other, a, b, reached, last, made, same, left, right, emitted, rfl⟩ :=
    build_compare_eq_ok unbound built
  obtain rfl : other = dtype := Option.some.inj (same.symm.trans type)
  have leftMember := upholds.sound.operands member lhs (by simp [Expr.operands])
  have rightMember := upholds.sound.operands member rhs (by simp [Expr.operands])
  obtain ⟨upheld, -, denotes⟩ :=
    (build_types upholds.sound lhs leftMember _ (upholds.emit _) (.refl _)).of_ok left
  obtain ⟨-, further, -⟩ :=
    (build_types upholds.sound rhs rightMember _ upheld (.refl _)).of_ok right
  obtain ⟨known, sameType, yields⟩ := denotes a rfl
  obtain rfl : known = other := Option.some.inj (sameType.symm.trans type)
  obtain ⟨op, result, defines⟩ := emitCompare_defines emitted (further.valueType? yields.typed)
  exact ⟨a, b, op, reached, last, left, right, result, defines⟩

/-! ## Promotion -/

/-- A cast that an operator needs is a node over the operand, unless the types are the same. -/
theorem implicitCast_eq_ok {expr made : Expr} {source target : DType}
    (type : expr.dtype? = some source) (cast : implicitCast expr target context = .ok made after) :
    source = target ∧ made = expr ∧ after = context ∨
      source ≠ target ∧ finish (fun id => .cast id target expr)
        (context.emit (.implicitCast expr.id source target)) = .ok made after := by
  obtain ⟨_, _, read, decided⟩ := EStateM.bind_eq_ok cast
  obtain ⟨known, rfl⟩ := valueType_eq_ok read
  obtain rfl := Option.some.inj (known.symm.trans type)
  split at decided
  · rename_i same
    cases decided
    exact .inl ⟨same, rfl, rfl⟩
  · rename_i different
    obtain ⟨_, _, emitted, node⟩ := EStateM.bind_eq_ok decided
    cases emitted
    obtain ⟨_, _, readAgain, finished⟩ := EStateM.bind_eq_ok node
    obtain ⟨again, rfl⟩ := valueType_eq_ok readAgain
    obtain rfl := Option.some.inj (again.symm.trans known)
    rw [if_neg different] at finished
    exact .inr ⟨different, finished⟩

/-- A comparison that was constructed is one of its promoted operands. -/
theorem compare_eq_ok {kind : Comparison} {lhs rhs node : Expr} {left right : DType}
    (leftType : lhs.dtype? = some left) (rightType : rhs.dtype? = some right)
    (compared : compare kind lhs rhs context = .ok node after) :
    ∃ types first second middle last, Promotion.arithmetic left right = .ok types ∧
      implicitCast lhs types.1 context = .ok first middle ∧
      implicitCast rhs types.2 middle = .ok second last ∧
      finish (fun id => .compare id kind first second) last = .ok node after := by
  obtain ⟨pair, made, promoted, finished⟩ := EStateM.bind_eq_ok compared
  obtain ⟨_, _, readLeft, untilRight⟩ := EStateM.bind_eq_ok promoted
  obtain ⟨knownLeft, rfl⟩ := valueType_eq_ok readLeft
  obtain rfl := Option.some.inj (knownLeft.symm.trans leftType)
  obtain ⟨_, _, readRight, untilTypes⟩ := EStateM.bind_eq_ok untilRight
  obtain ⟨knownRight, rfl⟩ := valueType_eq_ok readRight
  obtain rfl := Option.some.inj (knownRight.symm.trans rightType)
  obtain ⟨types, _, lifted, casts⟩ := EStateM.bind_eq_ok untilTypes
  obtain ⟨first, middle, firstCast, untilSecond⟩ := EStateM.bind_eq_ok casts
  obtain ⟨second, last, secondCast, same⟩ := EStateM.bind_eq_ok untilSecond
  cases same
  cases passed : Promotion.arithmetic _ _ with
  | error error =>
      rw [passed] at lifted
      cases lifted
  | ok found =>
      rw [passed] at lifted
      cases lifted
      exact ⟨types, first, second, middle, made, rfl, firstCast, secondCast, finished⟩

end BuildM

namespace Promotion

theorem withWidth_self (dtype : DType) : dtype.withWidth dtype.width = dtype := by
  cases dtype <;> rfl

/-- Two operands of one type are not cast. -/
theorem arithmetic_self {dtype : DType} {types : DType × DType}
    (passed : arithmetic dtype dtype = .ok types) : types = (dtype, dtype) := by
  obtain ⟨rank, -, ranked, -⟩ := ranks_of_arithmetic passed
  rw [arithmetic_of_eq ranked ranked rfl] at passed
  rcases regularize_eq_ok_iff.mp passed with ⟨-, -, left, right⟩ | ⟨-, -, -, left, right⟩
  · exact Prod.ext left right
  · rw [Nat.max_self, withWidth_self] at left right
    exact Prod.ext left right

/-- Types that are no floats are promoted to such types. -/
theorem arithmetic_raw {lhs rhs : DType} {types : DType × DType}
    (passed : arithmetic lhs rhs = .ok types) (left : lhs.isFloat = false)
    (right : rhs.isFloat = false) : types.1.isFloat = false ∧ types.2.isFloat = false := by
  have raw : ∀ {dtype : DType}, dtype.isFloat = false ↔ dtype.category ≠ .float :=
    fun {dtype} => by rw [← Bool.not_eq_true, isFloat_iff]
  have met : types.2.category = types.1.category := (arithmetic_meets passed).category
  suffices first : types.1.category ≠ .float from ⟨raw.mpr first, raw.mpr (met ▸ first)⟩
  obtain ⟨ranked, found, passed⟩ := Except.bind_eq_ok passed
  have kept : ranked.1.category ≠ .float := by
    obtain ⟨_, _, found⟩ := Except.bind_eq_ok found
    obtain ⟨_, _, found⟩ := Except.bind_eq_ok found
    split at found
    · cases found
      exact raw.mp left
    · split at found
      · obtain ⟨target, _, same⟩ := Except.bind_eq_ok found
        cases same
        exact raw.mp left
      · obtain ⟨target, cast, same⟩ := Except.bind_eq_ok found
        cases same
        exact castTarget_category cast ▸ raw.mp right
  rcases regularize_eq_ok_iff.mp passed with ⟨-, -, same, -⟩ | ⟨-, -, -, same, -⟩
  · exact same ▸ kept
  · rw [same, category_withWidth]
    exact kept

end Promotion

namespace BuildM

variable {context after : Context}

/-- A comparison of operands of one type is a node over these operands. -/
theorem compare_of_same {kind : Comparison} {lhs rhs node : Expr} {dtype : DType}
    (leftType : lhs.dtype? = some dtype) (rightType : rhs.dtype? = some dtype)
    (compared : compare kind lhs rhs context = .ok node after) :
    finish (fun id => .compare id kind lhs rhs) context = .ok node after := by
  obtain ⟨types, first, second, middle, last, passed, firstCast, secondCast, finished⟩ :=
    compare_eq_ok leftType rightType compared
  obtain rfl := Promotion.arithmetic_self passed
  obtain ⟨-, rfl, rfl⟩ | ⟨different, -⟩ := implicitCast_eq_ok leftType firstCast
  · obtain ⟨-, rfl, rfl⟩ | ⟨different, -⟩ := implicitCast_eq_ok rightType secondCast
    · exact finished
    · exact absurd rfl different
  · exact absurd rfl different

end BuildM

/-! ## Scalars that follow from others -/

/-- A scalar of a value that follows from given ones: it is given, or the operation of the value
defines it wherever some values have scalars that follow. -/
inductive Module.Derives (module : Module) (given : List (Value × Scalar)) :
    Value → Scalar → Prop where
  | given {value : Value} {scalar : Scalar} :
      (value, scalar) ∈ given → Derives module given value scalar
  | operation {op : OpId} {inputs : List (Value × Scalar)} {scalar : Scalar} :
      (∀ input ∈ inputs, Derives module given input.1 input.2) →
      (∀ (wider : Module) (run : Machine.RunBlock) (frame : Frame) (machine : Machine),
        module.Retains wider → (∀ input ∈ inputs, frame.find? input.1 = some (.scalar input.2)) →
        Machine.Defines wider run op frame machine (.ok scalar)) →
      Derives module given (.result op 0) scalar

/-- What follows in a module follows in a later one. -/
theorem Module.Derives.mono {module later : Module} {given : List (Value × Scalar)} {value : Value}
    {scalar : Scalar} (derives : module.Derives given value scalar)
    (retains : module.Retains later) : later.Derives given value scalar := by
  induction derives with
  | given member => exact .given member
  | operation _ defines ih =>
      exact .operation ih fun wider run frame machine further =>
        defines wider run frame machine (retains.trans further)

/-- What follows for the value of a comparison that was added to a context. -/
theorem BuildM.emitCompare_derives {context after : Context} {kind : Comparison} {dtype : DType}
    {a b value : Value} {given : List (Value × Scalar)} {lhs rhs result : Scalar}
    (emitted : emitCompare kind dtype a b context = .ok value after)
    (typed : context.module.valueType? a = some (.scalar dtype))
    (left : context.module.Derives given a lhs) (right : context.module.Derives given b rhs)
    (meaning : Meaning.compare kind dtype lhs rhs = .ok result) :
    after.module.Derives given value result := by
  obtain ⟨op, rfl, defines⟩ := emitCompare_defines emitted typed
  have retains := (createValue_adds emitted).retains
  have inputs : ∀ input ∈ [(a, lhs), (b, rhs)], after.module.Derives given input.1 input.2 := by
    simpa using ⟨left.mono retains, right.mono retains⟩
  refine .operation inputs fun wider run frame machine further known => ?_
  have atLeft : frame.find? a = some (.scalar lhs) := known (a, lhs) (by simp)
  have atRight : frame.find? b = some (.scalar rhs) := known (b, rhs) (by simp)
  exact meaning ▸ defines wider run frame machine lhs rhs further atLeft atRight

/-! ## Operands of a comparison -/

namespace Context

/-- A value is what an operand is bound to, brought from one type to another. -/
def Brought (context : Context) (expr : Expr) (source target : DType) (value : Value) : Prop :=
  ∃ operand, context.binding? expr.id = some (.value operand) ∧
    ∀ (given : List (Value × Scalar)) (x : Int), (Scalar.int x).Fits source →
      (operand, .int x) ∈ given →
      context.module.Derives given value ((Scalar.int x).convert source target)

variable {start context after : Context} {expr : Expr} {source target : DType} {value : Value}

theorem Brought.mono (brought : context.Brought expr source target value)
    (retains : context.module.Retains after.module) (stays : Stays context after) :
    after.Brought expr source target value := by
  obtain ⟨operand, bound, derives⟩ := brought
  exact ⟨operand, stays _ _ bound, fun given x fits member =>
    (derives given x fits member).mono retains⟩

/-- A node stands for an operand in another type: it is the operand, or a cast of it that is later
than `start` and whose value, if it has one, is what the operand is bound to, brought to the type. -/
inductive Brings (start : Context) (expr : Expr) (source target : DType) (context : Context) :
    Expr → Prop where
  | itself : source = target → Brings start expr source target context expr
  | cast {id : NodeId} : source ≠ target → start.nextId ≤ id →
      (∀ value, context.binding? id = some (.value value) →
        context.Brought expr source target value) →
      Brings start expr source target context (.cast id target expr)

/-- Nothing that is new is bound to the node. -/
theorem Brings.step {made : Expr} (brings : start.Brings expr source target context made)
    (retains : context.module.Retains after.module) (stays : Stays context after)
    (leaves : ∀ binding, start.nextId ≤ made.id → after.binding? made.id = some binding →
      context.binding? made.id = some binding) : start.Brings expr source target after made := by
  cases brings with
  | itself same => exact .itself same
  | cast different later known =>
      exact .cast different later fun value bound =>
        (known value (leaves _ later bound)).mono retains stays

end Context

namespace BuildM

variable {context after : Context} {epoch : Epoch} {pool : Pool}

/-- A cast that was built: its operand, and an operation. -/
theorem build_cast_brought {id : NodeId} {expr : Expr} {source target : DType} {value : Value}
    (upholds : context.Upholds epoch pool) (member : pool.expr expr)
    (type : expr.dtype? = some source) (different : source ≠ target) (other : expr.id ≠ id)
    (unbound : context.binding? id = none)
    (built : build (.cast id target expr) context = .ok (.value value) after) :
    after.Brought expr source target value := by
  rw [build] at built
  obtain ⟨_, made, ⟨⟩, acted, rfl⟩ := onceValue_eq_ok unbound built
  obtain ⟨_, _, read, untilCast⟩ := EStateM.bind_eq_ok acted
  obtain ⟨knownType, rfl⟩ := valueType_eq_ok read
  obtain rfl := Option.some.inj (knownType.symm.trans type)
  obtain ⟨operand, middle, first, emitted⟩ := operand_eq_ok untilCast
  rw [emitCast, if_neg different] at emitted
  have adds := createValue_adds emitted
  obtain ⟨op, carries⟩ := adds.carries
  obtain ⟨-, -, denotes⟩ :=
    (build_types upholds.sound expr member _ (upholds.emit _) (.refl _)).of_ok first
  obtain ⟨_, same, yields⟩ := denotes operand rfl
  obtain rfl := Option.some.inj (same.symm.trans type)
  have bound : (made.bind id (.value value)).binding? expr.id = some (.value operand) := by
    rw [adds.binding?_bind other.symm]
    exact build_bound first
  refine ⟨operand, bound, fun given x _ inside => ?_⟩
  have inputs : ∀ input ∈ [(operand, Scalar.int x)],
      made.module.Derives given input.1 input.2 :=
    List.forall_mem_singleton.mpr (.given inside)
  rw [adds.value]
  refine .operation inputs fun wider run frame machine further known => ?_
  have found : frame.find? operand = some (.scalar (.int x)) := known (operand, .int x) (by simp)
  exact Machine.cast_defines (further.op? carries.found) (carries.kind ▸ castKind_cases _ _)
    carries.results carries.operands ((adds.retains.trans further).valueType? yields.typed) found

/-- Building a node that stands for an operand brings the operand to its type. -/
theorem build_brings {start : Context} {expr made : Expr} {source target : DType} {value : Value}
    (brings : start.Brings expr source target context made) (upholds : context.Upholds epoch pool)
    (member : pool.expr expr) (type : expr.dtype? = some source) (earlier : expr.id < start.nextId)
    (built : build made context = .ok (.value value) after) :
    after.Brought expr source target value := by
  cases brings with
  | itself same =>
      subst same
      refine ⟨value, build_bound built, fun given x fits inside => ?_⟩
      rw [Scalar.convert_self fits]
      exact .given inside
  | cast different later known =>
      cases bound : context.binding? (Expr.cast _ target expr).id with
      | none =>
          have other := Nat.ne_of_lt (Nat.lt_of_lt_of_le earlier later)
          exact build_cast_brought upholds member type different other bound built
      | some binding =>
          rw [build_of_bound bound] at built
          cases built
          exact known value bound

/-! ## The course of a comparison -/

/-- Building a node over nodes of a pool does not bind any other node that is later than those. -/
theorem build_leaves {next : NodeId} (sound : pool.Sound next) {expr : Expr}
    (operands : ∀ operand ∈ expr.operands, pool.expr operand)
    (bounds : ∀ bound ∈ expr.bounds, pool.expr bound) {binding : Binding}
    (built : build expr context = .ok binding after) {id : NodeId} (later : next ≤ id)
    (other : expr.id ≠ id) {known : Binding} (bound : after.binding? id = some known) :
    context.binding? id = some known := by
  have names : Names (fun node => pool.expr node ∨ node = expr) (· ≠ id) :=
    { operands := by
        rintro node (member | rfl) operand listed
        · exact .inl (sound.operands member operand listed)
        · exact .inl (operands operand listed)
      bounds := by
        rintro node (member | rfl) bound listed
        · exact .inl ((sound.accepts member).bounds bound listed)
        · exact .inl (bounds bound listed)
      named := by
        rintro node (member | rfl) _
        · exact Nat.ne_of_lt (Nat.lt_of_lt_of_le (sound.below member) later)
        · exact other }
  have turns : context.Turns (· ≠ id) (fun _ => True) after :=
    ((build_turns names expr (.inr rfl) fun _ _ => trivial) context).of_ok built
  rcases turns.new id known bound with before | different
  · exact before
  · exact absurd rfl different

/-- A context on the way to a comparison over nodes of a pool, where some nodes are at hand. -/
structure Course (epoch : Epoch) (pool : Pool) (start : Context) (nodes : List Expr)
    (context : Context) : Prop where
  later : start.nextId ≤ context.nextId
  upholds : ∃ wider, pool.Le wider ∧ context.Upholds epoch wider ∧ ∀ node ∈ nodes, wider.expr node
  grounded : ∃ wider, context.Grounded wider ∧ ∀ node ∈ nodes, wider.expr node

namespace Course

variable {start : Context} {nodes : List Expr}

theorem emit (course : Course epoch pool start nodes context) (event : Event) :
    Course epoch pool start nodes (context.emit event) := by
  obtain ⟨wider, le, upholds, members⟩ := course.upholds
  obtain ⟨wide, grounded, listed⟩ := course.grounded
  have still : Still context (context.emit event) := ⟨rfl, rfl, rfl, rfl, rfl, rfl, rfl⟩
  exact ⟨course.later, ⟨wider, le, upholds.emit event, members⟩,
    ⟨wide, (grounded_tracks.still still grounded).2, listed⟩⟩

/-- A node is constructed over nodes at hand. -/
theorem insert (course : Course epoch pool start nodes context) (node : Expr)
    (fresh : node.id = context.nextId)
    (accepts : ∀ wider : Pool, (∀ node ∈ nodes, wider.expr node) → wider.Accepts node) :
    Course epoch pool start (node :: nodes) { context with nextId := context.nextId + 1 } := by
  obtain ⟨wider, le, upholds, members⟩ := course.upholds
  obtain ⟨wide, grounded, listed⟩ := course.grounded
  have added : ∀ {pool : Pool}, (∀ node ∈ nodes, pool.expr node) →
      ∀ other ∈ node :: nodes, (pool.insert node).expr other := fun known =>
    List.forall_mem_cons.mpr ⟨.inr rfl, fun other there =>
      (Pool.le_insert _ node).expr (known other there)⟩
  obtain ⟨-, upheld⟩ := (upholds_tracks _).insert fresh (accepts wider members) upholds
  obtain ⟨-, kept⟩ := grounded_tracks.insert fresh (accepts wide listed) grounded
  exact ⟨Nat.le_succ_of_le course.later,
    ⟨wider.insert node, le.trans (wider.le_insert node), upheld, added members⟩,
    ⟨wide.insert node, kept, added listed⟩⟩

/-- A node at hand is built. -/
theorem build (course : Course epoch pool start nodes context) {node : Expr} (listed : node ∈ nodes)
    {binding : Binding} (built : build node context = .ok binding after) :
    Course epoch pool start nodes after ∧ context.module.Retains after.module ∧
      context.Stays after := by
  obtain ⟨wider, le, upholds, members⟩ := course.upholds
  obtain ⟨wide, grounded, known⟩ := course.grounded
  obtain ⟨upheld, retains, -⟩ :=
    (build_types upholds.sound node (members node listed) _ upholds (.refl _)).of_ok built
  obtain ⟨stays, kept⟩ := (grounded_tracks.build (known node listed) grounded).of_ok built
  have later := ((build_emits _ _).of_ok built).nextId_le
  exact ⟨⟨Nat.le_trans course.later later, ⟨wider, le, upheld, members⟩, ⟨wide, kept, known⟩⟩,
    retains, stays⟩

/-- No node is bound before it is constructed. -/
theorem fresh (course : Course epoch pool start nodes context) :
    context.binding? context.nextId = none := by
  obtain ⟨wide, grounded, -⟩ := course.grounded
  exact grounded.unbound (Nat.le_refl _)

/-- What a cast that an operator needs leaves behind. -/
structure Casts (pool : Pool) (start : Context) (expr made : Expr) (source target : DType)
    (context after : Context) : Prop where
  brings : start.Brings expr source target after made
  type : made.dtype? = some target
  retains : context.module.Retains after.module
  stays : context.Stays after
  later : start.nextId ≤ made.id → context.nextId ≤ made.id
  leaves : ∀ (id : NodeId) (binding : Binding), start.nextId ≤ id → id < context.nextId →
    after.binding? id = some binding → context.binding? id = some binding
  operands : ∀ operand ∈ made.operands, pool.expr operand
  bounds : ∀ bound ∈ made.bounds, pool.expr bound

/-- An operand is cast to the type that an operator needs. -/
theorem implicitCast (course : Course epoch pool start nodes context)
    (sound : pool.Sound start.nextId) {expr made : Expr} {source target : DType}
    (listed : expr ∈ nodes) (member : pool.expr expr) (type : expr.dtype? = some source)
    (cast : BuildM.implicitCast expr target context = .ok made after) :
    Course epoch pool start (made :: nodes) after ∧
      Casts pool start expr made source target context after := by
  obtain ⟨rfl, rfl, rfl⟩ | ⟨different, finished⟩ := implicitCast_eq_ok type cast
  · obtain ⟨wider, le, upholds, members⟩ := course.upholds
    obtain ⟨wide, grounded, known⟩ := course.grounded
    exact ⟨⟨course.later, ⟨wider, le, upholds, List.forall_mem_cons.mpr ⟨le.expr member, members⟩⟩,
        ⟨wide, grounded, List.forall_mem_cons.mpr ⟨known made listed, known⟩⟩⟩,
      { brings := .itself rfl
        type
        retains := .refl _
        stays := Context.Stays.chains.refl _
        later := fun late => absurd (sound.below member) (Nat.not_lt.mpr late)
        leaves := fun _ _ _ _ bound => bound
        operands := sound.operands member
        bounds := (sound.accepts member).bounds }⟩
  · obtain ⟨rfl, rest⟩ := finish_eq_ok finished
    have reported := course.emit (.implicitCast expr.id source target)
    have operands : ∀ operand ∈ (Expr.cast context.nextId target expr).operands,
        pool.expr operand := by
      simpa [Expr.operands] using member
    have bounds : ∀ bound ∈ (Expr.cast context.nextId target expr).bounds, pool.expr bound := by
      simp [Expr.bounds]
    have inserted := reported.insert (.cast context.nextId target expr) rfl fun wider members =>
      ⟨by simpa [Expr.operands] using members expr listed, by simp [Expr.bounds],
        ⟨source, type, different⟩, by simp [Expr.tensor?]⟩
    have unbuilt : start.Brings expr source target
        { context.emit (.implicitCast expr.id source target) with nextId := context.nextId + 1 }
        (.cast context.nextId target expr) :=
      .cast different course.later fun value bound => by
        cases course.fresh.symm.trans bound
    rcases rest with rfl | ⟨binding, built⟩
    · exact ⟨inserted,
        { brings := unbuilt
          type := rfl
          retains := .refl _
          stays := Context.Stays.chains.refl _
          later := fun _ => Nat.le_refl _
          leaves := fun _ _ _ _ bound => bound
          operands
          bounds }⟩
    · obtain ⟨done, retains, stays⟩ := inserted.build (List.mem_cons_self ..) built
      obtain ⟨wider, le, upholds, -⟩ := inserted.upholds
      refine ⟨done,
        { brings := .cast different course.later fun value bound => ?_
          type := rfl
          retains := retains
          stays := stays
          later := fun _ => Nat.le_refl _
          leaves := fun id found late earlier bound => build_leaves sound operands bounds built
            late (Nat.ne_of_gt earlier) bound
          operands
          bounds }⟩
      obtain rfl := Option.some.inj ((build_bound built).symm.trans bound)
      exact build_brings unbuilt upholds (le.expr member) type (sound.below member) built

/-- Two nodes that stand for operands are built one after the other. -/
theorem buildBoth (course : Course epoch pool start nodes context) (sound : pool.Sound start.nextId)
    {lhs rhs first second : Expr} {left right leftTarget rightTarget : DType} {p q : Value}
    {reached : Context} (leftMember : pool.expr lhs) (rightMember : pool.expr rhs)
    (leftType : lhs.dtype? = some left) (rightType : rhs.dtype? = some right)
    (firstListed : first ∈ nodes) (secondListed : second ∈ nodes)
    (firstBrings : start.Brings lhs left leftTarget context first)
    (secondBrings : start.Brings rhs right rightTarget context second)
    (operands : ∀ operand ∈ first.operands, pool.expr operand)
    (bounds : ∀ bound ∈ first.bounds, pool.expr bound)
    (apart : start.nextId ≤ second.id → first.id ≠ second.id)
    (firstType : first.dtype? = some leftTarget)
    (firstBuilt : BuildM.build first context = .ok (.value p) reached)
    (secondBuilt : BuildM.build second reached = .ok (.value q) after) :
    after.Brought lhs left leftTarget p ∧ after.Brought rhs right rightTarget q ∧
      after.module.valueType? p = some (.scalar leftTarget) := by
  obtain ⟨wider, le, upholds, members⟩ := course.upholds
  obtain ⟨-, -, denotes⟩ :=
    (build_types upholds.sound first (members first firstListed) _ upholds (.refl _)).of_ok
      firstBuilt
  obtain ⟨_, same, yields⟩ := denotes p rfl
  obtain rfl := Option.some.inj (same.symm.trans firstType)
  have firstBrought := build_brings firstBrings upholds (le.expr leftMember) leftType
    (sound.below leftMember) firstBuilt
  obtain ⟨reachedCourse, grown, kept⟩ := course.build firstListed firstBuilt
  obtain ⟨-, further, stays⟩ := reachedCourse.build secondListed secondBuilt
  have secondKept : start.Brings rhs right rightTarget reached second :=
    secondBrings.step grown kept fun binding late bound =>
      build_leaves sound operands bounds firstBuilt late (apart late) bound
  obtain ⟨wider, le, upheld, -⟩ := reachedCourse.upholds
  exact ⟨firstBrought.mono further stays, build_brings secondKept upheld (le.expr rightMember)
    rightType (sound.below rightMember) secondBuilt, further.valueType? yields.typed⟩

end Course

/-- A comparison that is constructed and then built compares what the promotion makes of the
scalars of its operands. -/
theorem compare_derives {kind : Comparison} {lhs rhs node : Expr} {left right : DType}
    {value : Value} {middle : Context} (upholds : context.Upholds epoch pool)
    (grounded : ∃ wide, context.Grounded wide ∧ wide.expr lhs ∧ wide.expr rhs)
    (leftMember : pool.expr lhs) (rightMember : pool.expr rhs) (leftType : lhs.dtype? = some left)
    (rightType : rhs.dtype? = some right)
    (compared : compare kind lhs rhs context = .ok node middle)
    (built : buildValue node middle = .ok value after) :
    ∃ types a b, Promotion.arithmetic left right = .ok types ∧
      after.binding? lhs.id = some (.value a) ∧ after.binding? rhs.id = some (.value b) ∧
      ∀ (x y : Int) (result : Scalar),
        (Scalar.int x).Fits left → (Scalar.int y).Fits right →
        Meaning.compare kind types.1 ((Scalar.int x).convert left types.1)
          ((Scalar.int y).convert right types.2) = .ok result →
        after.module.Derives [(a, .int x), (b, .int y)] value result := by
  obtain ⟨types, first, second, casted, last, passed, firstCast, secondCast, finished⟩ :=
    compare_eq_ok leftType rightType compared
  obtain ⟨wide, grounded, leftThere, rightThere⟩ := grounded
  have started : Course epoch pool context [lhs, rhs] context :=
    ⟨Nat.le_refl _, ⟨pool, .refl _, upholds, by simp [leftMember, rightMember]⟩,
      ⟨wide, grounded, by simp [leftThere, rightThere]⟩⟩
  obtain ⟨firstCourse, firstCasts⟩ :=
    started.implicitCast upholds.sound (by simp) leftMember leftType firstCast
  obtain ⟨secondCourse, secondCasts⟩ :=
    firstCourse.implicitCast upholds.sound (by simp) rightMember rightType secondCast
  have whole := finish_build finished (buildValue_eq_ok.mp built)
  obtain ⟨rfl, -⟩ := finish_eq_ok finished
  have meets := Promotion.arithmetic_meets passed
  have earlier : first.id < casted.nextId := by
    obtain ⟨wider, -, upheld, members⟩ := firstCourse.upholds
    exact upheld.sound.below (members first (by simp))
  have apart : context.nextId ≤ second.id → first.id ≠ second.id := fun late =>
    Nat.ne_of_lt (Nat.lt_of_lt_of_le earlier (secondCasts.later late))
  have inserted := secondCourse.insert (.compare last.nextId kind first second) rfl
    fun wider members => ⟨by simp [Expr.operands, members], by simp [Expr.bounds],
      ⟨types.1, types.2, firstCasts.type, secondCasts.type, meets⟩, by simp [Expr.tensor?]⟩
  have unbound : ({ last with nextId := last.nextId + 1 } : Context).binding? last.nextId = none :=
    secondCourse.fresh
  obtain ⟨dtype, p, q, reached, ended, made, same, firstBuilt, secondBuilt, emitted, rfl⟩ :=
    build_compare_eq_ok unbound whole
  obtain rfl := Option.some.inj (same.symm.trans firstCasts.type)
  have entered := inserted.emit (.materialize last.nextId "compare")
  have firstBrings : context.Brings lhs left types.1 last first :=
    firstCasts.brings.step secondCasts.retains secondCasts.stays fun binding late bound =>
      secondCasts.leaves _ _ late earlier bound
  obtain ⟨firstBrought, secondBrought, typed⟩ := entered.buildBoth upholds.sound leftMember
    rightMember leftType rightType (by simp) (by simp)
    (firstBrings.step (.refl _) (Context.Stays.chains.refl _) fun _ _ bound => bound)
    (secondCasts.brings.step (.refl _) (Context.Stays.chains.refl _) fun _ _ bound => bound)
    firstCasts.operands firstCasts.bounds apart firstCasts.type firstBuilt secondBuilt
  obtain ⟨a, leftBound, leftDerives⟩ := firstBrought
  obtain ⟨b, rightBound, rightDerives⟩ := secondBrought
  -- The comparison is later than the operands, so binding it leaves theirs.
  have kept : ∀ operand, pool.expr operand →
      (made.bind last.nextId (.value value)).binding? operand.id = ended.binding? operand.id :=
    fun operand member => (createValue_adds emitted).binding?_bind
      (Nat.ne_of_gt (Nat.lt_of_lt_of_le (upholds.sound.below member) secondCourse.later))
  refine ⟨types, a, b, passed, (kept lhs leftMember).trans leftBound,
    (kept rhs rightMember).trans rightBound, fun x y result xFits yFits meaning => ?_⟩
  have derives : made.module.Derives [(a, .int x), (b, .int y)] value result :=
    emitCompare_derives emitted typed (leftDerives _ x xFits (by simp))
      (rightDerives _ y yFits (by simp)) meaning
  exact derives

end BuildM

end AffineKernel
