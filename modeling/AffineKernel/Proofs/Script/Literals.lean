import AffineKernel.Proofs.Build.Success
import AffineKernel.Proofs.Script.Comparisons
import AffineKernel.Proofs.Script.Sharing

/-!
# Integer literals and casts

An integer literal becomes a constant of a type in two ways: as a constant of
that type, whose attribute is a word scaled to the bits after the point, or as a
constant of type `int64` that is cast when the program runs. The word drops the
high bits of the scaled literal, but no type has more bits than a word, so both
constants are the scaled literal brought into the range of the type
(`Meaning.constant_literal`, `Promotion.bring_literal`).

`Context.Stands` says that a node can be built, in either mode, and which scalar
the operations compute that it becomes. Constructors keep it
(`BuildM.finish_stands`), so that at every moment of a program with an insertion
point both ways of writing a literal can be built, and compute the same scalar
(`Program.literal_casts_agree`).
-/

set_option autoImplicit false

namespace AffineKernel

/-! ## Numbers -/

/-- An integer literal as a raw integer of a type. -/
def Literal.raw (value : Int64) (dtype : DType) : Int :=
  normalize (value.toInt * 2 ^ dtype.fraction) dtype

variable {dtype : DType}

theorem DType.fraction_of_category (category : dtype.category = .int) : dtype.fraction = 0 := by
  cases dtype <;> first | rfl | cases category

/-- The constant of a literal is the literal in the range of its type. -/
theorem Meaning.constant_literal (raw : dtype.isFloat = false) (valid : dtype.Valid)
    (value : Int64) :
    constant dtype ((Literal.int value).toAttribute dtype) =
      .ok (.int (Literal.raw value dtype)) := by
  cases category : dtype.category with
  | float => exact absurd ((isFloat_iff dtype).mpr category) (by simp [raw])
  | int =>
      simp only [Literal.toAttribute, category]
      rw [constant_int raw, Literal.raw, DType.fraction_of_category category]
      simp
  | fixed =>
      simp only [Literal.toAttribute, category]
      rw [constant_int raw, normalize_ofInt valid.2, Literal.raw]

/-- The literal of type `int64` is the literal. -/
theorem Literal.raw_int64 (value : Int64) : Literal.raw value .int64 = value.toInt := by
  have scaled : value.toInt * 2 ^ DType.int64.fraction = value.toInt := by
    rw [show DType.int64.fraction = 0 from rfl, Int.pow_zero, Int.mul_one]
  rw [raw, scaled, normalize_int (by decide), signed]
  have least := Int64.le_toInt value
  have greatest := Int64.toInt_lt value
  exact Int.bmod_eq_of_le (by omega) (by omega)

/-- A cast of the literal is the literal in the range of the type. -/
theorem Promotion.bring_literal (value : Int64) (dtype : DType) :
    bring .int64 dtype value.toInt = Literal.raw value dtype := by
  have none : DType.int64.fraction = 0 := rfl
  rw [bring, none, rescale, if_pos (Nat.zero_le _), Nat.sub_zero, Literal.raw]

/-! ## Nodes that can be built -/

/-- A value of a type whose operations compute a scalar, given nothing. -/
structure Module.Computes (module : Module) (value : Value) (dtype : DType) (scalar : Scalar) :
    Prop where
  typed : module.valueType? value = some (.scalar dtype)
  derives : module.Derives [] value scalar

namespace Context

/-- A context with an insertion point, in which no node is bound that was not constructed yet. -/
structure Free (context : Context) : Prop where
  placed : context.stack ≠ []
  unbound : ∀ id, context.nextId ≤ id → context.binding? id = none

/-- If a node is bound, it is bound to a value with the scalar. -/
def Settled (context : Context) (id : NodeId) (dtype : DType) (scalar : Scalar) : Prop :=
  ∀ binding, context.binding? id = some binding →
    ∃ value, binding = .value value ∧ context.module.Computes value dtype scalar

/-- On the way from a context to another one a value with the scalar was made, and no node was bound
that is not constructed yet. -/
structure Gives (before : Context) (dtype : DType) (scalar : Scalar) (value : Value)
    (after : Context) : Prop where
  computes : after.module.Computes value dtype scalar
  stack : after.stack = before.stack
  nextId : after.nextId = before.nextId
  unbound : ∀ id, before.nextId ≤ id → before.binding? id = none → after.binding? id = none

/-- A node can be built, and becomes a value with the scalar. -/
def Stands (context : Context) (expr : Expr) (dtype : DType) (scalar : Scalar) : Prop :=
  BuildM.Succeeds (BuildM.build expr) context fun binding after =>
    ∃ value, binding = .value value ∧ context.Gives dtype scalar value after

theorem Gives.trans {before middle after : Context} {source : DType} {given scalar : Scalar}
    {operand value : Value} (first : before.Gives source given operand middle)
    (second : middle.Gives dtype scalar value after) : before.Gives dtype scalar value after where
  computes := second.computes
  stack := second.stack.trans first.stack
  nextId := second.nextId.trans first.nextId
  unbound id later none := second.unbound id (first.nextId ▸ later) (first.unbound id later none)

theorem Gives.free {before after : Context} {scalar : Scalar} {value : Value} (free : before.Free)
    (gives : before.Gives dtype scalar value after) : after.Free where
  placed := gives.stack ▸ free.placed
  unbound id later := by
    have later' := gives.nextId ▸ later
    exact gives.unbound id later' (free.unbound id later')

end Context

namespace BuildM

open Context

variable {context : Context} {scalar : Scalar}

/-- A node that is built at most once: it is bound to a value with the scalar, or an action makes
such a value. -/
theorem onceValue_gives {id : NodeId} {name : String} {action : BuildM Value}
    (earlier : id < context.nextId) (settled : context.Settled id dtype scalar)
    (acts : Succeeds action (context.emit (.materialize id name))
      ((context.emit (.materialize id name)).Gives dtype scalar · ·)) :
    Succeeds (onceValue id name action) context fun binding after =>
      ∃ value, binding = .value value ∧ context.Gives dtype scalar value after := by
  rw [Succeeds, onceValue, once, ensures_bind, ensures_get]
  cases bound : context.binding? id with
  | some binding =>
      obtain ⟨value, same, computes⟩ := settled binding bound
      exact ⟨value, same, computes, rfl, rfl, fun _ _ none => none⟩
  | none =>
      simp only [ensures_bind, ensures_emit, ensures_map, ensures_bindNode, ensures_pure]
      refine acts.mono (fun value after gives => ⟨value, rfl, ?_⟩) fun _ impossible => impossible
      refine ⟨⟨gives.computes.typed, gives.computes.derives⟩, gives.stack, gives.nextId, ?_⟩
      intro other later none
      rw [binding?_bind, if_neg (Nat.ne_of_lt (Nat.lt_of_lt_of_le earlier later))]
      exact gives.unbound other later none

theorem createValue_gives {kind : OpKind} {operands : List Value}
    {attributes : List (String × Attribute)} (placed : context.stack ≠ [])
    (defines : ∀ value after, Adds kind operands (.scalar dtype) attributes value context after →
      after.module.Derives [] value scalar) :
    Succeeds (createValue kind operands (.scalar dtype) attributes) context
      (context.Gives dtype scalar · ·) := by
  have succeeds : Succeeds (createValue kind operands (.scalar dtype) attributes) context
      fun _ after => after.stack = context.stack ∧ after.nextId = context.nextId := by
    rw [Succeeds, createValue, ensures_bind]
    exact ensures_create (fun _ _ _ => ⟨rfl, rfl⟩) fun empty => placed empty
  cases outcome : createValue kind operands (.scalar dtype) attributes context with
  | error error after =>
      simp only [Succeeds, Ensures, outcome] at succeeds
  | ok value after =>
      simp only [Succeeds, Ensures, outcome] at succeeds ⊢
      have adds := createValue_adds outcome
      obtain ⟨op, carries⟩ := adds.carries
      refine ⟨⟨?_, defines value after adds⟩, succeeds.1, succeeds.2, fun id _ none => ?_⟩
      · rw [adds.value]
        simp [Module.valueType?, carries.found, carries.results]
      · rw [binding?, adds.bindings]
        exact none

/-- Building the constant of a literal. -/
theorem build_literal (raw : dtype.isFloat = false) (valid : dtype.Valid) {id : NodeId}
    {value : Int64} (placed : context.stack ≠ []) (earlier : id < context.nextId)
    (settled : context.Settled id dtype (.int (Literal.raw value dtype))) :
    context.Stands (.constant id dtype (.int value)) dtype (.int (Literal.raw value dtype)) := by
  rw [Stands, build]
  refine onceValue_gives earlier settled ?_
  refine createValue_gives placed fun made after adds => ?_
  obtain ⟨op, carries⟩ := adds.carries
  rw [adds.value]
  have noInputs : ∀ input ∈ ([] : List (Value × Scalar)),
      after.module.Derives [] input.1 input.2 := by simp
  refine .operation noInputs fun wider run frame machine further _ => ?_
  have attr : op.attr? "value" = some ((Literal.int value).toAttribute dtype) := by
    rw [Operation.attr?, carries.attributes]
    rfl
  rw [← Meaning.constant_literal raw valid value]
  exact Machine.constant_defines (further.op? carries.found) carries.kind carries.results attr

theorem buildValue_computes {expr : Expr}
    (stands : context.Stands expr dtype scalar) :
    Succeeds (buildValue expr) context fun value after =>
      after.module.Computes value dtype scalar := by
  rw [Succeeds, buildValue, ensures_bind]
  refine Ensures.mono stands ?_ fun _ impossible => impossible
  rintro _ after ⟨value, rfl, gives⟩
  exact gives.computes

/-- A node that can be built once it is constructed can be built from then on, whether it is built at
once or not. -/
theorem finish_gives (node : NodeId → Expr) (named : ∀ id, (node id).id = id)
    (free : context.Free)
    (builds : ∀ started : Context, started = { context with nextId := context.nextId + 1 } →
      started.Settled context.nextId dtype scalar →
      started.Stands (node context.nextId) dtype scalar) :
    Succeeds (finish node) context fun expr after =>
      expr = node context.nextId ∧ after.Free ∧ context.nextId < after.nextId ∧
        after.Settled context.nextId dtype scalar ∧ after.Stands expr dtype scalar := by
  have started : ({ context with nextId := context.nextId + 1 } : Context).Free :=
    ⟨free.placed, fun id later => free.unbound id (Nat.le_of_succ_le later)⟩
  have settled : ({ context with nextId := context.nextId + 1 } : Context).Settled context.nextId
      dtype scalar := by
    intro binding bound
    cases (free.unbound context.nextId (Nat.le_refl _)).symm.trans bound
  have built := builds _ rfl settled
  rw [Succeeds, finish, ensures_bind, ensures_freshId, ensures_bind, ensures_get]
  split
  · rw [ensures_bind]
    cases outcome : build (node context.nextId) { context with nextId := context.nextId + 1 } with
    | error error after => simp only [Stands, Succeeds, Ensures, outcome] at built
    | ok binding after =>
        simp only [Stands, Succeeds, Ensures, outcome] at built
        obtain ⟨value, rfl, gives⟩ := built
        have bound := build_bound outcome
        have later : context.nextId < after.nextId := by
          rw [gives.nextId]
          exact Nat.lt_succ_self _
        have done : after.Settled context.nextId dtype scalar := fun other known => by
          rw [named] at bound
          exact ⟨value, Option.some.inj (known.symm.trans bound), gives.computes⟩
        have again : after.Stands (node context.nextId) dtype scalar := by
          simp only [Stands, Succeeds, Ensures, build_of_bound bound]
          exact ⟨value, rfl, gives.computes, rfl, rfl, fun _ _ none => none⟩
        simp only [Ensures, outcome]
        exact ⟨rfl, gives.free started, later, done, again⟩
  · exact ⟨rfl, started, Nat.lt_succ_self _, settled, built⟩

/-- Constructing the constant of a literal. -/
theorem constant_gives (raw : dtype.isFloat = false) (valid : dtype.Valid) (value : Int64)
    (free : context.Free) :
    Succeeds (constant (.int value) dtype) context fun expr after =>
      expr = .constant context.nextId dtype (.int value) ∧ after.Free ∧
        context.nextId < after.nextId ∧
        after.Settled context.nextId dtype (.int (Literal.raw value dtype)) ∧
        after.Stands expr dtype (.int (Literal.raw value dtype)) := by
  obtain ⟨rank, ranked⟩ : ∃ rank, dtype.rank = .ok rank :=
    ⟨_, DType.rank_eq_ok_iff.mpr ⟨fun _ => valid.2, rfl⟩⟩
  rw [constant, checkType, ranked]
  refine finish_gives (fun id => .constant id dtype (.int value)) (fun _ => rfl) free ?_
  rintro _ rfl settled
  exact build_literal raw valid free.placed (Nat.lt_succ_self _) settled

/-- Building a cast of a literal of type `int64`. -/
theorem build_castLiteral (raw : dtype.isFloat = false) (different : DType.int64 ≠ dtype)
    {id source : NodeId} {value : Int64} (placed : context.stack ≠ []) (inner : source < id)
    (earlier : id < context.nextId)
    (literal : context.Settled source .int64 (.int (Literal.raw value .int64)))
    (settled : context.Settled id dtype (.int (Literal.raw value dtype))) :
    context.Stands (.cast id dtype (.constant source .int64 (.int value))) dtype
      (.int (Literal.raw value dtype)) := by
  rw [Stands, build]
  refine onceValue_gives earlier settled (valueType_succeeds rfl ?_)
  have operandBuilt := @build_literal .int64 (context.emit (.materialize id "cast")) rfl
    ⟨by decide, by decide⟩ source value placed (Nat.lt_trans inner earlier) literal
  rw [Succeeds, ensures_bind]
  refine Ensures.mono operandBuilt ?_ fun _ impossible => impossible
  rintro _ middle ⟨operand, rfl, gives⟩
  rw [needValue, pure_bind, emitCast, if_neg different]
  have casts : Succeeds (createValue (castKind .int64 dtype) [operand] (.scalar dtype) []) middle
      (middle.Gives dtype (.int (Literal.raw value dtype)) · ·) := by
    refine createValue_gives (gives.stack ▸ placed) fun made after adds => ?_
    obtain ⟨op, carries⟩ := adds.carries
    have inputs : ∀ input ∈ [(operand, Scalar.int (Literal.raw value .int64))],
        after.module.Derives [] input.1 input.2 :=
      List.forall_mem_singleton.mpr (gives.computes.derives.mono adds.retains)
    rw [adds.value]
    refine .operation inputs fun wider run frame machine further known => ?_
    have converted : (Scalar.int (Literal.raw value .int64)).convert .int64 dtype =
        .int (Literal.raw value dtype) := by
      rw [Scalar.convert_int rfl raw, Literal.raw_int64, Promotion.bring_literal]
    rw [← converted]
    exact Machine.cast_defines (further.op? carries.found) (carries.kind ▸ castKind_cases _ _)
      carries.results carries.operands
      ((adds.retains.trans further).valueType? gives.computes.typed)
      (known (operand, _) (List.mem_singleton_self _))
  exact casts.mono (fun made after given => gives.trans given) fun _ impossible => impossible

/-- Constructing the constant of a literal and building it. -/
theorem constant_builds (raw : dtype.isFloat = false) (valid : dtype.Valid) (value : Int64)
    (free : context.Free) :
    Succeeds (constant (.int value) dtype >>= buildValue) context fun made after =>
      after.module.Computes made dtype (.int (Literal.raw value dtype)) := by
  rw [Succeeds, ensures_bind]
  refine (constant_gives raw valid value free).mono ?_ fun _ impossible => impossible
  rintro _ middle ⟨rfl, -, -, -, builds⟩
  exact buildValue_computes builds

/-- Constructing a literal of type `int64` and a cast of it, and building the cast. -/
theorem cast_builds (raw : dtype.isFloat = false) (valid : dtype.Valid) (value : Int64)
    (free : context.Free) :
    Succeeds (cast (constant (.int value) .int64) dtype >>= buildValue) context fun made after =>
      after.module.Computes made dtype (.int (Literal.raw value dtype)) := by
  obtain ⟨rank, ranked⟩ : ∃ rank, dtype.rank = .ok rank :=
    ⟨_, DType.rank_eq_ok_iff.mpr ⟨fun _ => valid.2, rfl⟩⟩
  have constructed := @constant_gives .int64 context rfl ⟨by decide, by decide⟩ value free
  rw [cast, checkType, ranked, Succeeds, ensures_bind, ensures_bind, ensures_pure, ensures_bind]
  refine constructed.mono ?_ fun _ impossible => impossible
  rintro _ middle ⟨rfl, ready, earlier, literal, builds⟩
  rw [castNode]
  refine valueType_succeeds rfl ?_
  by_cases same : DType.int64 = dtype
  · -- A literal that has the type already is not cast.
    subst same
    rw [if_pos rfl]
    exact buildValue_computes builds
  · rw [if_neg same]
    have casts : ∀ started : Context, started = { middle with nextId := middle.nextId + 1 } →
        started.Settled middle.nextId dtype (.int (Literal.raw value dtype)) →
        started.Stands (.cast middle.nextId dtype (.constant context.nextId .int64 (.int value)))
          dtype (.int (Literal.raw value dtype)) := by
      rintro _ rfl settled
      exact build_castLiteral raw same ready.placed earlier (Nat.lt_succ_self _) literal settled
    have finished := finish_gives
      (fun id => .cast id dtype (.constant context.nextId .int64 (.int value))) (fun _ => rfl)
      ready casts
    refine finished.mono ?_ fun _ impossible => impossible
    rintro _ after ⟨rfl, -, -, -, stands⟩
    exact buildValue_computes stands

end BuildM

namespace Program

/-- At a moment of a program, no node is bound that was not constructed yet. -/
theorem free_of_passes {program : Program} {moment : Session}
    (passes : Session.Passes program.body (program.session .fresh) moment)
    (placed : moment.context.stack ≠ []) : moment.context.Free := by
  obtain ⟨pool, grounded, -⟩ := grounded_of_passes passes
  exact ⟨placed, fun _ later => grounded.unbound later⟩

/-- **Integer literals and casts.** At every moment of a program with an insertion point, in either
mode, an integer literal can be written as a constant of a type of integers or fixed point numbers,
and as a constant of type `int64` that is cast to this type. Both can be built, and the operations of
both compute the same scalar: the literal, scaled to the bits after the point and brought into the
range of the type. -/
theorem literal_casts_agree (program : Program) {moment : Session}
    (passes : Session.Passes program.body (program.session .fresh) moment)
    (placed : moment.context.stack ≠ []) (raw : dtype.isFloat = false) (valid : dtype.Valid)
    (value : Int64) :
    ∃ p after q after',
      (BuildM.constant (.int value) dtype >>= BuildM.buildValue) moment.context = .ok p after ∧
      (BuildM.cast (BuildM.constant (.int value) .int64) dtype >>= BuildM.buildValue)
        moment.context = .ok q after' ∧
      after.module.Derives [] p (.int (normalize (value.toInt * 2 ^ dtype.fraction) dtype)) ∧
      after'.module.Derives [] q (.int (normalize (value.toInt * 2 ^ dtype.fraction) dtype)) := by
  have free := free_of_passes passes placed
  obtain ⟨p, after, built, computes⟩ :=
    (BuildM.constant_builds raw valid value free).exists_ok
  obtain ⟨q, after', casted, computes'⟩ := (BuildM.cast_builds raw valid value free).exists_ok
  exact ⟨p, after, q, after', built, casted, computes.derives, computes'.derives⟩

/-- A program without statements, in the in-place mode. -/
def idle : Program where
  mode := some .inPlace
  setting := none
  setup := []
  body := []

/-- Thirteen with three bits after the point is too large for six bits. -/
theorem thirteen_wraps : ∃ p after q after',
    (BuildM.constant (.int 13) (.fixed 6 3) >>= BuildM.buildValue) (idle.session .fresh).context =
      .ok p after ∧
    (BuildM.cast (BuildM.constant (.int 13) .int64) (.fixed 6 3) >>= BuildM.buildValue)
      (idle.session .fresh).context = .ok q after' ∧
    after.module.Derives [] p (.int (-24)) ∧ after'.module.Derives [] q (.int (-24)) := by
  have wraps :
      normalize ((13 : Int64).toInt * 2 ^ (DType.fixed 6 3).fraction) (.fixed 6 3) = -24 := by
    decide
  rw [← wraps]
  exact literal_casts_agree idle .here (by decide) rfl ⟨by decide, by decide⟩ 13

end Program

end AffineKernel
