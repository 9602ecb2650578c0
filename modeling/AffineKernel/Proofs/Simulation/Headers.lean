import AffineKernel.Proofs.IR.Additions
import AffineKernel.Proofs.Semantics.Persistence
import AffineKernel.Proofs.Semantics.Ranges
import AffineKernel.Proofs.Simulation.Comparisons
import AffineKernel.Proofs.Simulation.Regions

/-!
# Headers of loops and conditionals

What a loop or a conditional is created with. A condition, and a bound that is
an expression, is built, its value is converted to `index`, and the result is
an operand. As soon as the operations were executed that were added to the block
on the way, the operand has the integer of the value as an `index`
(`Indexes`), and so a bound has its number (`Limits.denotes`).

Both bounds of a loop are built before the loop is created. What was made for
the lower one stays as it is while the upper one is built and executed
(`Indexes.later`), so both have their numbers where the loop starts
(`BuildM.beginLoop_heads`).
-/

set_option autoImplicit false

namespace AffineKernel

/-- An integer that is converted to `index` keeps its low bits. -/
theorem Scalar.convert_integer {dtype : DType} (integer : dtype.isIntegerLike = true)
    (value : Int) : (Scalar.int value).convert dtype .index = .int (normalize value .index) := by
  have scaled : rescale value 0 0 = value := by simp [rescale]
  cases dtype with
  | int | uint | index => exact congrArg (fun raw => Scalar.int (normalize raw .index)) scaled
  | _ => cases integer

namespace Machine

variable {module base : Module} {run : RunBlock} {frame entry : Frame} {machine after : Machine}

/-- Operations that were added later leave the values of a module alone. -/
theorem advance_agrees {later : Module} {block : BlockId}
    (ran : advance (runOp module run) (base.added later block) frame machine =
      .ok (.next entry) after) {value : Value} {type : ValueType}
    (typed : base.valueType? value = some type) : entry.find? value = frame.find? value := by
  apply advance_keeps ran
  intro id member position same
  subst same
  obtain ⟨op, found, -⟩ := Option.bind_eq_some_iff.mp typed
  have small := Module.index_lt_of_op? found
  exact absurd (Module.index_le_of_mem_added member) (Nat.not_le_of_lt small)

end Machine

namespace BuildM

variable {context after : Context}

theorem create_eq_ok {draft : OpDraft} {id : OpId} (created : create draft context = .ok id after) :
    ∃ point rest, context.stack = point :: rest ∧ id = ⟨context.module.size⟩ ∧
      after.module = (context.module.create draft point).2 := by
  have known : Ensures (create draft) context
      (fun id after => ∃ point rest, context.stack = point :: rest ∧
        id = ⟨context.module.size⟩ ∧ after.module = (context.module.create draft point).2)
      (fun _ => True) :=
    ensures_create (fun point rest stack => ⟨point, rest, stack, rfl, rfl⟩) fun _ => trivial
  exact known.of_ok created

end BuildM

/-! ## Conversion to `index` -/

/-- Between two contexts a value of a type is made, and an operand that has its integer as an
`index` as soon as the operations were executed that were added to a block. -/
structure Indexes (block : BlockId) (dtype : DType) (value operand : Value)
    (before after : Context) : Prop where
  typed : after.module.valueType? value = some (.scalar dtype)
  listed : after.module.valueType? operand = some (.scalar .index)
  converts : ∀ {module : Module} {run : Machine.RunBlock} {frame entry : Frame}
    {machine middle : Machine} {x : Int}, after.module.Retains module →
    Machine.advance (Machine.runOp module run) (before.module.added after.module block) frame
      machine = .ok (.next entry) middle →
    normalize x dtype = x → entry.find? value = some (.scalar (.int x)) →
    entry.find? operand = some (.scalar (.int (normalize x .index)))

namespace Indexes

variable {block : BlockId} {dtype : DType} {value operand : Value} {start before after last : Context}

/-- Operations may come first. -/
theorem earlier (indexes : Indexes block dtype value operand before after)
    (first : start.module.Retains before.module) (second : before.module.Retains after.module) :
    Indexes block dtype value operand start after where
  typed := indexes.typed
  listed := indexes.listed
  converts := by
    intro module run frame entry machine middle x wider ran normal found
    rw [Module.added_append first second] at ran
    obtain ⟨next, reached, -, later⟩ := Machine.advance_append_eq_ok ran
    exact indexes.converts wider later normal found

/-- Operations may come afterwards. -/
theorem later (indexes : Indexes block dtype value operand before after)
    (first : before.module.Retains after.module) (second : after.module.Retains last.module) :
    Indexes block dtype value operand before last where
  typed := second.valueType? indexes.typed
  listed := second.valueType? indexes.listed
  converts := by
    intro module run frame entry machine middle x wider ran normal found
    rw [Module.added_append first second] at ran
    obtain ⟨next, reached, early, late⟩ := Machine.advance_append_eq_ok ran
    rw [Machine.advance_agrees late indexes.typed] at found
    rw [Machine.advance_agrees late indexes.listed]
    exact indexes.converts (second.trans wider) early normal found

end Indexes

namespace BuildM

variable {context middle after : Context} {epoch : Epoch} {pool : Pool} {dtype : DType}
  {value operand : Value} {point : InsertionPoint} {rest : List InsertionPoint}

/-- A value is converted by a cast, unless it is an `index`. -/
theorem emitCast_indexes (current : context.stack = point :: rest)
    (integer : dtype.isIntegerLike = true)
    (typed : context.module.valueType? value = some (.scalar dtype))
    (emitted : emitCast value dtype .index context = .ok operand after) :
    Indexes point.block dtype value operand context after := by
  unfold emitCast at emitted
  split at emitted
  · rename_i same
    subst same
    cases emitted
    exact
      { typed := typed
        listed := typed
        converts := fun _ _ normal found => normal.symm ▸ found }
  · obtain ⟨id, middle, ran, same⟩ := EStateM.bind_eq_ok emitted
    cases same
    obtain ⟨point', rest', current', rfl, created⟩ := create_eq_ok ran
    obtain ⟨rfl, rfl⟩ := List.cons.inj (current.symm.trans current')
    have grown : context.module.Retains after.module := created ▸ .create _ _ _
    have found : after.module.op? ⟨context.module.size⟩ = _ :=
      created ▸ Module.op?_create_self
    have single : context.module.added after.module point.block = [⟨context.module.size⟩] := by
      rw [created, Module.added_create]
    refine
      { typed := grown.valueType? typed
        listed := by simp [Module.valueType?, found]
        converts := ?_ }
    intro module run frame entry machine middle x wider ran normal holds
    have carried : frame.find? value = some (.scalar (.int x)) := by
      rw [← Machine.advance_agrees ran typed, holds]
    have defines : Machine.Defines module run ⟨context.module.size⟩ frame machine
        (.ok ((Scalar.int x).convert dtype .index)) :=
      Machine.cast_defines (wider.op? found) (castKind_cases _ _) rfl rfl
        ((grown.trans wider).valueType? typed) carried
    obtain ⟨ended, defined, -⟩ := defines.apply
    rw [single, Machine.advance_singleton, defined] at ran
    cases ran
    rw [Frame.find?_define_self (Frame.ne_nil_of_find? carried), Scalar.convert_integer integer]

/-- An integer node of the pool is built and converted. -/
theorem build_indexes (upholds : context.Upholds epoch pool) {expr : Expr}
    (member : pool.expr expr) (type : expr.dtype? = some dtype)
    (integer : dtype.isIntegerLike = true) (current : context.stack = point :: rest)
    (built : build expr context = .ok (.value value) middle)
    (emitted : emitCast value dtype .index middle = .ok operand after) :
    after.Upholds epoch pool ∧ Indexes point.block dtype value operand context after := by
  obtain ⟨upheld, first, denotes⟩ :=
    (build_types upholds.sound expr member _ upholds (.refl _)).of_ok built
  obtain ⟨known, same, yields⟩ := denotes value rfl
  obtain rfl := Option.some.inj (same.symm.trans type)
  obtain ⟨last, second, -⟩ := (emitCast_types yields _ upheld (.refl _)).of_ok emitted
  have stack : middle.stack = context.stack := ((build_emits expr context).of_ok built).stack
  have indexes := emitCast_indexes (stack.trans current) integer yields.typed emitted
  exact ⟨last, indexes.earlier first second⟩

end BuildM

/-! ## Bounds -/

/-- In a context a bound is built to a value, unless it is a literal. -/
inductive Bound.BuiltTo (context : Context) : Bound → Option Value → Prop where
  | const (number : Int64) : BuiltTo context (.const number) none
  | expr {expr : Expr} {value : Value} {after : Context} :
      BuildM.build expr context = .ok (.value value) after →
      BuiltTo context (.expr expr) (some value)

/-- The number of a bound in a frame: its literal, or the integer of its value as an `index`. -/
inductive Bound.Reads (frame : Frame) : Bound → Option Value → Int → Prop where
  | const (number : Int64) : Reads frame (.const number) none number.toInt
  | expr {expr : Expr} {value : Value} {dtype : DType} {x : Int} :
      expr.dtype? = some dtype → normalize x dtype = x →
      frame.find? value = some (.scalar (.int x)) →
      Reads frame (.expr expr) (some value) (normalize x .index)

/-- What a bound becomes between two contexts. -/
inductive Limits (block : BlockId) (before after : Context) :
    Bound → Option Value → BuildM.LoopBound → Prop where
  | const (number : Int64) : Limits block before after (.const number) none ⟨.constant number, none⟩
  | expr {expr : Expr} {dtype : DType} {value operand : Value} :
      expr.dtype? = some dtype → Indexes block dtype value operand before after →
      Limits block before after (.expr expr) (some value) ⟨.identity 1, some operand⟩

namespace Limits

variable {block : BlockId} {start before after last : Context} {bound : Bound}
  {value : Option Value} {limit : BuildM.LoopBound}

theorem earlier (limits : Limits block before after bound value limit)
    (first : start.module.Retains before.module) (second : before.module.Retains after.module) :
    Limits block start after bound value limit := by
  cases limits with
  | const number => exact .const number
  | expr type indexes => exact .expr type (indexes.earlier first second)

theorem later (limits : Limits block before after bound value limit)
    (first : before.module.Retains after.module) (second : after.module.Retains last.module) :
    Limits block before last bound value limit := by
  cases limits with
  | const number => exact .const number
  | expr type indexes => exact .expr type (indexes.later first second)

/-- As soon as the operations were executed that were added, the bound has its number. -/
theorem denotes (limits : Limits block before after bound value limit) {module : Module}
    (wider : after.module.Retains module) {run : Machine.RunBlock} {frame entry : Frame}
    {machine middle : Machine}
    (ran : Machine.advance (Machine.runOp module run) (before.module.added after.module block) frame
      machine = .ok (.next entry) middle)
    {number : Int} (reads : bound.Reads entry value number) : limit.Denotes entry number := by
  cases limits with
  | const number =>
      cases reads
      exact .constant number
  | expr type indexes =>
      cases reads with
      | expr known normal found =>
          obtain rfl := Option.some.inj (known.symm.trans type)
          exact .operand (indexes.converts wider ran normal found) ⟨rfl, normalize_normalize _ _⟩

end Limits

namespace BuildM

variable {context after : Context} {epoch : Epoch} {pool : Pool} {point : InsertionPoint}
  {rest : List InsertionPoint}

/-- A bound is a literal, or an integer expression whose value is converted. -/
theorem buildBound_limits (upholds : context.Upholds epoch pool) {bound : Bound}
    (members : ∀ expr ∈ bound.exprs, pool.expr expr) (current : context.stack = point :: rest)
    {limit : LoopBound} (built : buildBound bound context = .ok limit after) :
    after.Upholds epoch pool ∧ ∃ value, bound.BuiltTo context value ∧
      Limits point.block context after bound value limit := by
  cases bound with
  | const number =>
      rw [buildBound] at built
      cases built
      exact ⟨upholds, none, .const number, .const number⟩
  | expr expr =>
      have member : pool.expr expr := members expr (by simp [Bound.exprs])
      rw [buildBound] at built
      obtain ⟨dtype, _, read, checked⟩ := EStateM.bind_eq_ok built
      obtain ⟨type, rfl⟩ := valueType_eq_ok read
      by_cases integer : dtype.isIntegerLike = true
      · simp only [integer, Bool.not_true, Bool.false_eq_true, ↓reduceIte] at checked
        obtain ⟨value, middle, made, converted⟩ := operand_eq_ok checked
        obtain ⟨operand, last, emitted, same⟩ := EStateM.bind_eq_ok converted
        cases same
        obtain ⟨upheld, indexes⟩ :=
          build_indexes upholds member type integer current made emitted
        exact ⟨upheld, some value, .expr made, .expr type indexes⟩
      · simp only [Bool.not_eq_true] at integer
        simp only [integer] at checked
        cases checked

end BuildM

/-! ## Headers -/

/-- Between two contexts operations are added at an insertion point, and then another one. -/
structure Context.Inserts (point : InsertionPoint) (ops : List OpId) (last : OpId)
    (before after : Context) : Prop where
  current : before.stack.head? = some point
  added : before.module.added after.module point.block = ops ++ [last]
  /-- Their block lists them where the insertion point is. -/
  listed : ∀ {found : Block}, before.module.block? point.block = some found →
    after.module.block? point.block = some { found with
      ops := (ops ++ [last]).foldl (fun listed id => Module.place id point.before listed)
        found.ops }

/-- After some operations another one was added, with a block of its own. -/
structure Heads (draft : OpDraft) (point : InsertionPoint) (id : OpId) (body : BlockId)
    (before reached after : Context) : Prop where
  inserts : before.Inserts point (before.module.added reached.module point.block) id after
  retains : reached.module.Retains after.module
  carries : ∃ op, after.module.Carries id op draft ∧ op.regions = [body]

/-- An operation survives in a module that retains it. -/
theorem Module.Carries.of_retains {module wider : Module} {id : OpId} {op : Operation}
    {draft : OpDraft} (carries : module.Carries id op draft) (retains : module.Retains wider) :
    wider.Carries id op draft :=
  { carries with found := retains.op? carries.found }

/-- A draft with one region becomes an operation, after others at the same insertion point. -/
theorem BuildM.createRegion_heads {kind : OpKind} {operands : List Value}
    {attributes : List (String × Attribute)} {args : List ValueType} {id : OpId} {body : BlockId}
    {before reached after : Context} (emits : Context.Emits [] before reached)
    (created : createRegion kind operands attributes args reached = .ok (id, body) after) :
    ∃ point rest, before.stack = point :: rest ∧
      Heads { kind, operands, attributes, regions := [args] } point id body before reached after := by
  simp only [createRegion, EStateM.get_bind_apply] at created
  obtain ⟨made, last, ran, same⟩ := EStateM.bind_eq_ok created
  cases same
  obtain ⟨point, rest, atLast, rfl, module⟩ := create_eq_ok ran
  have current : before.stack = point :: rest := emits.stack.symm.trans atLast
  have start : before.stack.head? = some point := by rw [current, List.head?_cons]
  have first : Module.Fills (some point) before.module reached.module := start ▸ emits.fills
  have second : Module.Fills (some point) reached.module after.module := module ▸ .create _ _ _
  have fills := first.trans second fun _ _ _ => rfl
  have added : before.module.added after.module point.block =
      before.module.added reached.module point.block ++ [⟨reached.module.size⟩] := by
    rw [Module.added_append first.retains second.retains, module, Module.added_create]
  refine ⟨point, rest, current, ⟨start, added, fun listed => added ▸ fills.listed listed⟩,
    second.retains, ?_⟩
  rw [module]
  exact ⟨_, ⟨Module.op?_create_self, rfl, rfl, rfl, rfl⟩, by simp [Module.freshBlocks]⟩

namespace BuildM

variable {context after : Context} {epoch : Epoch} {pool : Pool}

/-- A loop is begun: both bounds are built, and then the loop is created. -/
theorem beginLoop_heads (upholds : context.Upholds epoch pool) {lower upper : Bound}
    (lowers : ∀ expr ∈ lower.exprs, pool.expr expr) (uppers : ∀ expr ∈ upper.exprs, pool.expr expr)
    {spec : LoopSpec} {var : Expr} {header : LoopHeader}
    (begun : beginLoop lower upper spec context = .ok (var, header) after) :
    ∃ middle reached point p q low high,
      lower.BuiltTo { context with nextId := context.nextId + 1 } p ∧
      buildBound lower { context with nextId := context.nextId + 1 } = .ok low middle ∧
      upper.BuiltTo middle q ∧ Limits point.block context reached lower p low ∧
      Limits point.block context reached upper q high ∧
      Heads (loopDraft low high spec) point header.op header.body context reached after := by
  obtain ⟨id, start, fresh, untilLow⟩ := EStateM.bind_eq_ok begun
  cases fresh
  obtain ⟨low, middle, lowBuilt, untilHigh⟩ := EStateM.bind_eq_ok untilLow
  obtain ⟨high, reached, highBuilt, untilLoop⟩ := EStateM.bind_eq_ok untilHigh
  obtain ⟨made, last, looped, same⟩ := EStateM.bind_eq_ok untilLoop
  cases same
  obtain ⟨⟨op, body⟩, ended, created, logs⟩ := EStateM.bind_eq_ok looped
  obtain ⟨_, _, logged, same⟩ := EStateM.bind_eq_ok logs
  cases logged
  cases same
  have lowEmits := (buildBound_emits lower _).of_ok lowBuilt
  have highEmits := (buildBound_emits upper middle).of_ok highBuilt
  obtain ⟨point, rest, atLow, heads⟩ := createRegion_heads (lowEmits.trans highEmits) created
  have atHigh : middle.stack = point :: rest := lowEmits.stack.trans atLow
  have started : ({ context with nextId := context.nextId + 1 } : Context).Upholds epoch pool :=
    upholds.mono rfl (fun _ _ found => found) rfl (Nat.le_succ _)
  obtain ⟨upheld, p, lowMade, lowLimits⟩ := buildBound_limits started lowers atLow lowBuilt
  obtain ⟨-, q, highMade, highLimits⟩ := buildBound_limits upheld uppers atHigh highBuilt
  have lowLater := lowLimits.later lowEmits.fills.retains highEmits.fills.retains
  have highEarlier := highLimits.earlier lowEmits.fills.retains highEmits.fills.retains
  have both := (lowEmits.trans highEmits).fills.retains
  exact ⟨middle, reached, point, p, q, low, high, lowMade, lowBuilt, highMade,
    lowLater.earlier (.refl _) both, highEarlier.earlier (.refl _) both,
    ⟨⟨heads.inserts.current, heads.inserts.added, heads.inserts.listed⟩, heads.retains,
      heads.carries⟩⟩

/-- A conditional is begun: its condition is built and converted, and then the conditional is
created. -/
theorem beginConditional_heads (upholds : context.Upholds epoch pool) {condition : Expr}
    (member : pool.expr condition) {id : OpId} {body : BlockId}
    (begun : beginConditional condition context = .ok (id, body) after) :
    ∃ dtype value middle reached point operand, condition.dtype? = some dtype ∧
      dtype.isIntegerLike = true ∧ build condition context = .ok (.value value) middle ∧
      Indexes point.block dtype value operand context reached ∧
      Heads
        { kind := .affineIf, operands := [operand], regions := [[]],
          attributes := [("condition", .integerSet .isOne)] }
        point id body context reached after := by
  obtain ⟨dtype, _, read, checked⟩ := EStateM.bind_eq_ok begun
  obtain ⟨type, rfl⟩ := valueType_eq_ok read
  by_cases integer : dtype.isIntegerLike = true
  · simp only [integer, Bool.not_true, Bool.false_eq_true, ↓reduceIte] at checked
    obtain ⟨value, middle, made, untilCast⟩ := EStateM.bind_eq_ok checked
    obtain ⟨operand, reached, emitted, created⟩ := EStateM.bind_eq_ok untilCast
    have built := buildValue_eq_ok.mp made
    have emits := ((build_emits condition _).of_ok built).trans
      ((emits_steps.emitCast value dtype .index middle).of_ok emitted)
    obtain ⟨point, rest, current, heads⟩ := createRegion_heads emits created
    obtain ⟨-, indexes⟩ := build_indexes upholds member type integer current built emitted
    exact ⟨dtype, value, middle, reached, point, operand, type, integer, built, indexes, heads⟩
  · simp only [Bool.not_eq_true] at integer
    simp only [integer] at checked
    cases checked

end BuildM

end AffineKernel
