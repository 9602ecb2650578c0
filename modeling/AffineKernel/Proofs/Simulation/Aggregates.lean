import AffineKernel.Proofs.Simulation.Reductions
import AffineKernel.Proofs.Simulation.Values

/-!
# Functions that return a reduction

A reduction over axes with literal bounds, of an expression over these axes and
the tensors of a function, can be built in the body of the function
(`BuildM.build_reduce_succeeds`). A call of a function that returns it replies
the result of the reduction, and this follows the law of its kind: the sum of
the values at all points modulo the width of the type, or the least or greatest
of them.
-/

set_option autoImplicit false

namespace AffineKernel

/-- What is over loop variables and tensors has no reduction, store or call. -/
theorem Expr.isFlat_of_isOver {vars tensors : List NodeId} : ∀ (expr : Expr),
    expr.isOver vars tensors = true → expr.isFlat = true
  | .constant .., _ | .loopVar .., _ | .axis .., _ | .load .., _ => rfl
  | .unary _ _ _ operand, covered | .cast _ _ operand, covered => operand.isFlat_of_isOver covered
  | .binary _ _ _ lhs rhs, covered | .compare _ _ lhs rhs, covered | .getBit _ lhs rhs, covered => by
      obtain ⟨left, right⟩ := Bool.and_eq_true_iff.mp covered
      rw [isFlat, lhs.isFlat_of_isOver left, rhs.isFlat_of_isOver right]
      rfl
  | .select _ _ condition thenValue elseValue, covered => by
      obtain ⟨both, third⟩ := Bool.and_eq_true_iff.mp covered
      obtain ⟨first, second⟩ := Bool.and_eq_true_iff.mp both
      rw [isFlat, condition.isFlat_of_isOver first, thenValue.isFlat_of_isOver second,
        elseValue.isFlat_of_isOver third]
      rfl
  | .store .., covered | .call .., covered | .reduce .., covered => by cases covered

/-! ## Reductions can be built -/

namespace Context.Serves

variable {points : List InsertionPoint} {vars fewer tensors : List NodeId} {context : Context}

theorem narrow (serves : context.Serves points vars tensors) (subset : ∀ id ∈ fewer, id ∈ vars) :
    context.Serves points fewer tensors :=
  { serves with bound := fun id listed => serves.bound id (subset id listed) }

theorem savePoint (serves : context.Serves points vars tensors) (point : InsertionPoint) :
    (context.savePoint point).Serves (point :: points) vars tensors where
  stack := congrArg (List.cons point) serves.stack
  placed := List.cons_ne_nil _ _
  values := serves.values
  bound := serves.bound
  stored := serves.stored

/-- A region that has kept the insertion points is left. -/
theorem leave {before : Context} (serves : context.Serves points vars tensors)
    (same : before.stack = points) :
    (context.leaveRegion before.mark).Serves points [] tensors where
  stack := by
    simp [Context.leaveRegion, Context.truncate, Context.mark, Context.depth, serves.stack, same]
  placed := serves.placed
  values := by
    intro id binding found
    rw [Context.binding?, Context.leaveRegion, Table.find?_eraseAll] at found
    split at found
    · cases found
    · exact serves.values found
  bound _ listed := absurd listed (List.not_mem_nil)
  stored := serves.stored

end Context.Serves

namespace BuildM

variable {points : List InsertionPoint} {vars tensors : List NodeId} {context : Context}

theorem emitLoop_succeeds (lower upper : LoopBound) (spec : LoopSpec)
    (serves : context.Serves points vars tensors) :
    Succeeds (emitLoop lower upper spec) context
      fun _ after => after.Serves points vars tensors := by
  simp only [Succeeds, emitLoop, createRegion, ensures_bind, ensures_get, ensures_emit,
    ensures_pure]
  refine (create_succeeds _ serves).mono (fun _ after reached => ?_) fun _ impossible => impossible
  exact reached.emit _

theorem restorePoint_succeeds {point : InsertionPoint}
    (serves : context.Serves (point :: points) vars tensors) (placed : points ≠ []) :
    Succeeds restorePoint context fun _ after => after.Serves points vars tensors := by
  simp only [Succeeds, restorePoint, ensures_bind, ensures_get, serves.stack, ensures_set,
    ensures_emit, ensures_pure]
  exact { serves with stack := rfl, placed }

/-- Loops over ranges can be built around an action that can be built in them. -/
theorem nest_succeeds {inner : BuildM Unit} {needed : List NodeId}
    (works : ∀ {points : List InsertionPoint} {context : Context},
      context.Serves points needed tensors →
      Succeeds inner context fun _ after => after.Serves points [] tensors)
    (ranges : List AxisRange) {points : List InsertionPoint} {vars : List NodeId}
    {context : Context} (covered : ∀ id ∈ needed, id ∈ ranges.map AxisRange.id ∨ id ∈ vars)
    (serves : context.Serves points vars tensors) :
    Succeeds (nest ranges inner) context fun _ after => after.Serves points [] tensors := by
  induction ranges generalizing points vars context with
  | nil =>
      refine works (serves.narrow fun id listed => ?_)
      exact (covered id listed).resolve_left (by simp)
  | cons range rest ih =>
      rw [nest, Succeeds, ensures_bind]
      refine (emitLoop_succeeds _ _ _ serves).mono ?_ fun _ impossible => impossible
      intro header created reached
      simp only [ensures_bind, ensures_bindNode, ensures_savePoint]
      have inside := (reached.bind range.id header.counter).savePoint (.atEnd header.body)
      have more : ∀ id ∈ needed, id ∈ rest.map AxisRange.id ∨ id ∈ range.id :: vars := by
        intro id listed
        rcases covered id listed with new | old
        · rw [List.map_cons, List.mem_cons] at new
          rcases new with rfl | later
          · exact .inr List.mem_cons_self
          · exact .inl later
        · exact .inr (List.mem_cons_of_mem _ old)
      refine (ih more inside).mono ?_ fun _ impossible => impossible
      intro _ done filled
      rw [emitYield, ensures_bind]
      refine (create_succeeds _ filled).mono ?_ fun _ impossible => impossible
      intro _ last yielded
      rw [ensures_pure]
      refine (restorePoint_succeeds yielded serves.placed).mono ?_ fun _ impossible => impossible
      exact fun _ _ left => left

theorem openAccumulator_succeeds (kind : ReduceKind) (dtype : DType)
    (serves : context.Serves points vars tensors) :
    Succeeds (openAccumulator kind dtype) context
      fun _ after => after.Serves points vars tensors := by
  rw [Succeeds, openAccumulator, ensures_bind]
  refine (createValue_succeeds _ _ _ _ serves).mono ?_ fun _ impossible => impossible
  intro buffer first allocated
  rw [ensures_bind]
  refine (createValue_succeeds _ _ _ _ allocated).mono ?_ fun _ impossible => impossible
  intro zero second counted
  rw [ensures_bind]
  refine (createValue_succeeds _ _ _ _ counted).mono ?_ fun _ impossible => impossible
  intro start third begun
  simp only [Accumulator.store, ensures_bind, ensures_pure]
  exact create_succeeds _ begun

/-- The innermost body of a reduction of an expression over its axes can be built. -/
theorem step_succeeds {pool : Pool} {next : NodeId} (sound : pool.Sound next) (acc : Accumulator)
    (kind : ReduceKind) {dtype : DType} {body : Expr} (covered : body.isOver vars tensors = true)
    (member : pool.expr body) (typed : body.dtype? = some dtype)
    (serves : context.Serves points vars tensors) :
    Succeeds (acc.step kind dtype body) context fun _ after => after.Serves points [] tensors := by
  rw [Accumulator.step]
  refine valueType_succeeds typed ?_
  rw [if_neg (fun different => different rfl)]
  refine operand_succeeds (build_succeeds sound body covered member serves) fun data built made => ?_
  rw [Succeeds, ensures_bind]
  refine (createValue_succeeds _ _ _ _ made).mono ?_ fun _ impossible => impossible
  intro current loaded reached
  rw [ensures_bind]
  refine (createValue_succeeds _ _ _ _ reached).mono ?_ fun _ impossible => impossible
  intro combined middle computed
  simp only [Accumulator.store, ensures_bind, ensures_pure]
  refine (create_succeeds _ computed).mono ?_ fun _ impossible => impossible
  exact fun _ _ stored => stored.narrow (by simp)

/-- A reduction over literal ranges, of an expression over its axes, can be built. -/
theorem build_reduce_succeeds {pool : Pool} {next : NodeId} (sound : pool.Sound next) {id : NodeId}
    {dtype : DType} (kind : ReduceKind) {body : Expr} {ranges : List AxisRange}
    (covered : body.isOver (ranges.map AxisRange.id) tensors = true) (member : pool.expr body)
    (typed : body.dtype? = some dtype) (serves : context.Serves points [] tensors) :
    Yields points [] tensors (build (.reduce id dtype kind body (ranges.map AxisRange.expr)))
      context := by
  rw [build_reduce]
  refine onceValue_yields serves ?_
  rw [Succeeds, ensures_bind, ensures_emit, ensures_bind]
  refine (openAccumulator_succeeds kind dtype ((serves.emit _).emit _)).mono ?_
    fun _ impossible => impossible
  intro acc opened begun
  rw [ensures_bind, ensures_inRegion, reduceNest_ranges]
  have inside : opened.enterRegion.Serves points [] tensors := { begun with }
  refine (nest_succeeds (step_succeeds sound acc kind covered member typed) ranges
    (fun id listed => .inl listed) inside).mono ?_ fun _ impossible => impossible
  intro _ done filled
  exact createValue_succeeds _ _ _ _ (filled.leave begun.stack)

/-- A function can be ended with what can be built. -/
theorem endFunction_succeeds {expr : Expr} (yields : Yields points vars tensors (build expr) context) :
    ∃ after, endFunction (some expr) context = .ok () after := by
  have ends : Succeeds (endFunction (some expr)) context fun _ _ => True := by
    simp only [Succeeds, endFunction, buildValue, ensures_bind, ensures_pure]
    refine yields.mono ?_ fun _ impossible => impossible
    rintro _ middle ⟨⟨value, rfl⟩, reached⟩
    refine (create_succeeds _ reached).mono (fun _ _ _ => trivial) fun _ impossible => impossible
  simp only [Succeeds, Ensures] at ends
  cases outcome : endFunction (some expr) context with
  | ok _ after => exact ⟨after, rfl⟩
  | error error after =>
      rw [outcome] at ends
      exact ends.elim

/-- The end of a function that returns a reduction: the reduction is built, and returned. -/
theorem endFunction_reduces {nodes : Expr → Prop} (graph : Graph nodes) {id : NodeId}
    {dtype : DType} {kind : ReduceKind} {body : Expr} {ranges : List AxisRange}
    (flat : body.isFlat = true) (member : nodes body)
    (members : ∀ range ∈ ranges, nodes range.expr) (distinct : (ranges.map AxisRange.id).Nodup)
    (free : context.binding? id = none) (ends : context.AtEnds) (rooted : context.Rooted) :
    Ensures (endFunction (some (.reduce id dtype kind body (ranges.map AxisRange.expr)))) context
      (fun _ after => ∃ value middle ret,
        Reduces nodes kind dtype body ranges value context middle ∧
        Creates { kind := .ret, operands := [value] } ret middle after)
      (fun _ => True) := by
  simp only [endFunction, buildValue, ensures_bind, ensures_pure]
  refine (build_reduces graph flat member members distinct free ends rooted).mono ?_
    fun _ _ => trivial
  rintro _ middle ⟨value, rfl, reduces⟩
  refine (create_creates _ middle).mono (fun ret after creates => ?_) fun _ _ => trivial
  exact ⟨value, middle, ret, reduces, creates⟩

end BuildM

/-! ## Values fit their types -/

/-- The value of an expression fits its type, if loop variables are indices and the elements of
tensors fit their types. -/
theorem Expr.value_fits {nodes : Expr → Prop} (graph : Graph nodes) {env : Env} {memory : Memory}
    (counted : ∀ {id : NodeId} {number : Int}, env id = some number →
      (Scalar.int number).Fits .index)
    (held : ∀ {expr : Expr} {tensor : Tensor} {buffer : Buffer}, nodes expr →
      expr.tensor? = some tensor → memory tensor.id = some buffer →
      ∀ scalar ∈ buffer.data, scalar.Fits tensor.dtype) :
    ∀ (expr : Expr) {scalar : Scalar} {dtype : DType}, nodes expr →
      expr.value env memory = .ok scalar → expr.dtype? = some dtype → scalar.Fits dtype
  | .constant id dtype literal, scalar, _, _, known, rfl => by
      exact (Meaning.constant_proper literal dtype).fits known
  | .loopVar id name, scalar, _, _, known, rfl | .axis id name _ _, scalar, _, _, known, rfl => by
      rw [value] at known
      split at known
      · rename_i number found
        cases known
        exact counted found
      · cases known
  | .unary id dtype kind operand, scalar, _, member, known, rfl => by
      obtain ⟨float, typed⟩ := graph.formed member
      obtain ⟨x, found, result⟩ := Except.bind_eq_ok known
      have below := graph.operands member operand (by simp [Expr.operands])
      obtain ⟨function, lowered⟩ := Meaning.lower_floatFunction kind
      have fits := operand.value_fits graph counted held below found typed
      exact (Meaning.unary_proper lowered fits float float).fits result
  | .binary id dtype kind lhs rhs, scalar, _, member, known, rfl => by
      obtain ⟨typeLeft, ⟨op, lowered⟩, right, typeRight, meets⟩ := graph.formed member
      obtain ⟨a, foundLeft, known⟩ := Except.bind_eq_ok known
      obtain ⟨b, foundRight, result⟩ := Except.bind_eq_ok known
      have left := graph.operands member lhs (by simp [Expr.operands])
      have right := graph.operands member rhs (by simp [Expr.operands])
      have fitsLeft := lhs.value_fits graph counted held left foundLeft typeLeft
      have fitsRight := rhs.value_fits graph counted held right foundRight typeRight
      exact (Meaning.binary_proper lowered fitsLeft fitsRight meets.category).fits result
  | .compare id kind lhs rhs, scalar, _, member, known, rfl => by
      obtain ⟨leftType, rightType, typeLeft, typeRight, meets⟩ := graph.formed member
      obtain ⟨a, foundLeft, known⟩ := Except.bind_eq_ok known
      obtain ⟨b, foundRight, result⟩ := Except.bind_eq_ok known
      have left := graph.operands member lhs (by simp [Expr.operands])
      have right := graph.operands member rhs (by simp [Expr.operands])
      have fitsLeft := lhs.value_fits graph counted held left foundLeft typeLeft
      have fitsRight := rhs.value_fits graph counted held right foundRight typeRight
      rw [typeLeft] at result
      exact (Meaning.compare_proper fitsLeft fitsRight meets.category).fits result
  | .cast id dtype source, scalar, _, member, known, rfl => by
      obtain ⟨sourceType, typed, -⟩ := graph.formed member
      obtain ⟨x, found, result⟩ := Except.bind_eq_ok known
      rw [typed] at result
      cases result
      exact Scalar.convert_fits x sourceType dtype
  | .load id tensor indices, scalar, _, member, known, rfl => by
      obtain ⟨tuple, -, known⟩ := Except.bind_eq_ok known
      obtain ⟨buffer, found, read⟩ := Except.bind_eq_ok known
      unfold Meaning.contents at found
      split at found
      · rename_i same
        cases found
        exact (Meaning.read_proper (held member rfl same) tuple).fits read
      · cases found
  | .select id dtype condition thenValue elseValue, scalar, _, member, known, rfl => by
      obtain ⟨typeFirst, typeSecond, typeThird⟩ := graph.formed member
      obtain ⟨c, foundFirst, known⟩ := Except.bind_eq_ok known
      obtain ⟨t, foundSecond, known⟩ := Except.bind_eq_ok known
      obtain ⟨e, foundThird, result⟩ := Except.bind_eq_ok known
      have first := graph.operands member condition (by simp [Expr.operands])
      have second := graph.operands member thenValue (by simp [Expr.operands])
      have third := graph.operands member elseValue (by simp [Expr.operands])
      have fitsFirst := condition.value_fits graph counted held first foundFirst typeFirst
      have fitsSecond := thenValue.value_fits graph counted held second foundSecond typeSecond
      have fitsThird := elseValue.value_fits graph counted held third foundThird typeThird
      exact (Meaning.select_proper fitsFirst fitsSecond fitsThird).fits result
  | .getBit id source bit, scalar, _, member, known, rfl => by
      obtain ⟨⟨sourceType, typeLeft, integer⟩, typeRight⟩ := graph.formed member
      obtain ⟨v, foundLeft, known⟩ := Except.bind_eq_ok known
      obtain ⟨b, foundRight, result⟩ := Except.bind_eq_ok known
      have left := graph.operands member source (by simp [Expr.operands])
      have right := graph.operands member bit (by simp [Expr.operands])
      have fitsLeft := source.value_fits graph counted held left foundLeft typeLeft
      have fitsRight := bit.value_fits graph counted held right foundRight typeRight
      rw [typeLeft] at result
      exact (Meaning.getBit_proper integer fitsLeft fitsRight).fits result

/-- The numbers of a point are those of the ranges. -/
theorem points_fit {ranges : List AxisRange} {env point : Env} (listed : point ∈ points ranges env)
    (counted : ∀ {id : NodeId} {number : Int}, env id = some number →
      (Scalar.int number).Fits .index) :
    ∀ {id : NodeId} {number : Int}, point id = some number → (Scalar.int number).Fits .index := by
  induction ranges generalizing env with
  | nil =>
      obtain rfl := List.mem_singleton.mp listed
      exact counted
  | cons range rest ih =>
      obtain ⟨count, inside, later⟩ := List.mem_flatMap.mp listed
      refine ih later fun {other number} found => ?_
      rw [Env.set] at found
      split at found
      · cases found
        have := mem_counters inside
        have := range.lower.le_toInt
        have := range.upper.toInt_lt
        exact fits_index_iff.mpr (by omega)
      · exact counted found

/-! ## Functions that return a reduction -/

namespace Context.Hosts

variable {name : String} {tensors : List Tensor} {context : Context}

/-- Expressions over the tensors of a function can be built in its body. -/
theorem serves (hosts : context.Hosts name tensors) :
    context.Serves context.stack [] (tensors.map Tensor.id) where
  stack := rfl
  placed := by simp [hosts.stack]
  values := by
    intro id binding bound
    rw [hosts.unbound] at bound
    cases bound
  bound _ listed := absurd listed List.not_mem_nil
  stored := hosts.complete

end Context.Hosts

/-- A function whose body is the end alone can be ended with a reduction, and returns its result. -/
theorem Context.Hosts.returns_reduction {name : String} {tensors : List Tensor} {context : Context}
    {pool : Pool} {id : NodeId} {dtype : DType} {kind : ReduceKind} {body : Expr}
    {ranges : List AxisRange} (hosts : context.Hosts name tensors)
    (sound : pool.Sound context.nextId) (listed : ∀ tensor ∈ tensors, pool.tensor tensor)
    (distinct : (tensors.map Tensor.id).Nodup)
    (member : pool.expr (.reduce id dtype kind body (ranges.map AxisRange.expr)))
    (axes : (ranges.map AxisRange.id).Nodup)
    (covered : body.isOver (ranges.map AxisRange.id) (tensors.map Tensor.id) = true)
    (typed : body.dtype? = some dtype) :
    ∃ after, BuildM.endFunction (some (.reduce id dtype kind body (ranges.map AxisRange.expr)))
        context = .ok () after ∧
      ∀ (buffers : List Buffer) (depth : Nat) (machine : Machine),
        Tensor.AcceptAll tensors buffers → ranges.length ≤ depth →
        (Machine.call after.module (depth + 1) name buffers machine).1.Answers buffers
          (Meaning.reduce kind dtype body ranges (fun _ => none) (.ofArgs tensors buffers) >>=
            fun scalar => .ok ([scalar], buffers)) := by
  have ends := hosts.ends
  have inside : pool.expr body := sound.operands member body (by simp [Expr.operands])
  have members : ∀ range ∈ ranges, pool.expr range.expr := by
    intro range used
    refine sound.operands member range.expr ?_
    simp only [Expr.operands, List.mem_cons, List.mem_map]
    exact .inr ⟨range, used, rfl⟩
  obtain ⟨after, ended⟩ := BuildM.endFunction_succeeds (BuildM.build_reduce_succeeds sound kind covered
    inside typed hosts.serves)
  refine ⟨after, ended, fun buffers depth machine accepted deep => ?_⟩
  obtain ⟨value, middle, ret, reduces, creates⟩ :=
    (BuildM.endFunction_reduces sound.graph (body.isFlat_of_isOver covered) inside members axes
      (hosts.unbound id) ends hosts.rooted).of_ok ended
  obtain ⟨ops, lists, performs⟩ := reduces.runs
  obtain ⟨op, carries, -⟩ := creates.carries
  have body : after.module.block? ⟨1⟩ = some ⟨parameters tensors, ops ++ [ret], some ⟨0⟩⟩ := by
    have built := lists ⟨1⟩ _ _ hosts.stack hosts.body
    exact creates.lists ⟨1⟩ _ _ (reduces.emits.stack.trans hosts.stack) built
  have leads : middle.Leads after.module :=
    creates.emits.leads (reduces.emits.atEnds ends) (.refl _ after.module)
  refine hosts.answers (reduces.emits.leads ends leads).extends_ body accepted.count fun log => ?_
  have starts := hosts.represents distinct accepted (sound.tensor_eq listed) machine.heap
  rw [Machine.advance_append]
  refine (performs after.module _ _ _ ⟨_, log⟩ deep leads (fun _ _ => rfl) starts).bind ?_
  rintro scalar step last - ⟨next, rfl, found, -, heap⟩
  rw [Step.andThen, Machine.advance_ret carries found]
  refine .of_ok ⟨rfl, ?_⟩
  rw [heap]
  exact Machine.returned_append machine.heap #[.cell dtype scalar] buffers

/-- The values of a body over ranges are integers of its type, if it has a value at every point. -/
theorem Expr.values_over {nodes : Expr → Prop} (graph : Graph nodes) {tensors : List Tensor}
    {buffers : List Buffer} (accepted : Tensor.AcceptAll tensors buffers)
    (known : ∀ {expr : Expr} {tensor : Tensor}, nodes expr → expr.tensor? = some tensor →
      ∀ arg ∈ tensors, arg.id = tensor.id → arg = tensor)
    {body : Expr} (member : nodes body) {dtype : DType} (typed : body.dtype? = some dtype)
    (raw : dtype.isFloat = false) {ranges : List AxisRange}
    (evaluated : ∀ point ∈ points ranges (fun _ => none),
      ∃ scalar, body.value point (.ofArgs tensors buffers) = .ok scalar) :
    ∃ values : List Int, (points ranges (fun _ => none)).map
        (fun point => body.value point (.ofArgs tensors buffers)) =
          values.map (fun value => .ok (.int value)) ∧
      ∀ value ∈ values, (Scalar.int value).Fits dtype := by
  have held : ∀ {expr : Expr} {tensor : Tensor} {buffer : Buffer}, nodes expr →
      expr.tensor? = some tensor → Memory.ofArgs tensors buffers tensor.id = some buffer →
      ∀ scalar ∈ buffer.data, scalar.Fits tensor.dtype := by
    intro expr tensor buffer inside used found
    obtain ⟨place, key, given⟩ := Table.exists_of_find?_zip found
    rw [List.getElem?_map, Option.map_eq_some_iff] at key
    obtain ⟨arg, listed, same⟩ := key
    obtain rfl := known inside used arg (List.mem_of_getElem? listed) same
    exact (accepted.each listed given).fits
  have fits : ∀ point ∈ points ranges (fun _ => none), ∃ value : Int,
      body.value point (.ofArgs tensors buffers) = .ok (.int value) ∧
        (Scalar.int value).Fits dtype := by
    intro point listed
    obtain ⟨scalar, found⟩ := evaluated point listed
    have fit := body.value_fits graph (points_fit listed (by simp)) held member found typed
    obtain ⟨value, rfl⟩ := fit.exists_int fun float => by simp [(isFloat_iff dtype).mpr float] at raw
    exact ⟨value, found, fit⟩
  generalize points ranges (fun _ => none) = places at fits
  clear evaluated
  induction places with
  | nil => exact ⟨[], rfl, by simp⟩
  | cons point rest ih =>
      obtain ⟨value, found, fit⟩ := fits point (by simp)
      obtain ⟨values, same, others⟩ := ih fun other listed => fits other (List.mem_cons_of_mem _ listed)
      refine ⟨value :: values, by simp [found, same], fun other listed => ?_⟩
      rcases List.mem_cons.mp listed with rfl | later
      · exact fit
      · exact others other later

namespace Session

/-- The body of a function that returns the least product of an element of its tensor and a number
between minus one and one. -/
def leastBody : List Statement :=
  [.command ⟨some "i", false⟩ (.make (.axis (.const 0) (.const 2) "i")),
    .command ⟨some "j", false⟩ (.make (.axis (.const (-1)) (.const 2) "j")),
    .command ⟨some "x", false⟩ (.make (.load "a" [.var "i"])),
    .command ⟨some "p", false⟩ (.make (.binary .mul (.var "x") (.var "j"))),
    .command ⟨some "m", false⟩ (.make (.reduce .min (.var "p") ["i", "j"]))]

/-- This function. -/
def least : Statement := .function ⟨none, false⟩ "least" ["a"] (some "m") leastBody

/-- The session in which the body starts. -/
def leastOpened : Session := (attempt (BuildM.beginFunction "least" [ratioTensor]) ratioStart).2

/-- The session at the end of the body. -/
def leastDone : Session := (runBody leastBody (leastOpened.inside ⟨1⟩)).2

/-- The axes of the minimum. -/
def leastRanges : List AxisRange := [⟨1, "i", 0, 2⟩, ⟨2, "j", -1, 2⟩]

/-- The product that is minimized. -/
def leastProduct : Expr :=
  .binary 5 .index .mul (.cast 4 .index (.load 3 ratioTensor [.axis 1 "i" (.const 0) (.const 2)]))
    (.axis 2 "j" (.const (-1)) (.const 2))

end Session

end AffineKernel
