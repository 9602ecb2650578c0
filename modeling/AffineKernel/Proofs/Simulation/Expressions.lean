import AffineKernel.Proofs.Build.Access
import AffineKernel.Proofs.Simulation.Computation

/-!
# Building expressions

Building an expression without reductions, stores and calls computes its value
(`BuildM.build_computes`). The nodes form a graph: a node that is bound already
was computed before, so nothing is executed for it, and since nodes of one
identity are the same node, what is found is its value.

The loop variables that an access collects are nodes below its indices, so their
values are in the frame.
-/

set_option autoImplicit false

namespace AffineKernel

variable {nodes : Expr → Prop} {setting : Setting} {context : Context} {frame : Frame}
  {heap : Array Buffer}

/-! ## Accesses -/

/-- The value of a loop variable is its number. -/
theorem Setting.value_of_loopName {expr : Expr} {name : String} {scalar : Scalar}
    (named : expr.loopName? = some name) (meaning : setting.value expr = .ok scalar) :
    ∃ number, setting.env expr.id = some number ∧ scalar = .int number := by
  cases expr with
  | loopVar | axis =>
      simp only [Setting.value, Expr.value] at meaning
      split at meaning
      · rename_i number looked
        cases meaning
        exact ⟨number, looked, rfl⟩
      · cases meaning
  | _ => cases named

/-- The values that loop variables are bound to hold numbers. -/
theorem Represents.numbers (represents : Represents nodes setting context frame heap)
    {refs : List LoopRef} {values : List Value} (stand : ∀ ref ∈ refs, Extraction.Stands nodes ref)
    (bound : refs.map context.loopValue? = values.map some) :
    ∃ numbers : List Int, refs.map (fun ref => setting.env ref.id) = numbers.map some ∧
      values.map frame.find? = numbers.map fun number => some (.scalar (.int number)) := by
  induction refs generalizing values with
  | nil =>
      cases values with
      | nil => exact ⟨[], rfl, rfl⟩
      | cons value rest => cases bound
  | cons ref refs ih =>
      cases values with
      | nil => cases bound
      | cons value rest =>
          rw [List.map_cons, List.map_cons, List.cons.injEq] at bound
          obtain ⟨numbers, known, found⟩ :=
            ih (fun other member => stand other (List.mem_cons_of_mem _ member)) bound.2
          obtain ⟨expr, member, same, named⟩ := stand ref (by simp)
          obtain ⟨number, looked, held⟩ : ∃ number, setting.env ref.id = some number ∧
              frame.find? value = some (.scalar (.int number)) := by
            have found : context.binding? expr.id = some (.value value) := by
              rw [same]
              exact Context.binding?_of_loopValue? bound.1
            obtain ⟨scalar, dtype, bears⟩ := represents.bound member found
            obtain ⟨number, looked, rfl⟩ := Setting.value_of_loopName named bears.meaning
            exact ⟨number, same ▸ looked, bears.found⟩
          exact ⟨number :: numbers, by simp [looked, known], by simp [held, found]⟩

/-- What an operand of a node holds. -/
theorem Represents.operand (represents : Represents nodes setting context frame heap) {expr : Expr} {value : Value}
    {scalar : Scalar} {dtype : DType} (member : nodes expr)
    (bound : context.binding? expr.id = some (.value value))
    (meaning : setting.value expr = .ok scalar) (type : expr.dtype? = some dtype) :
    Bears setting context.module frame expr value scalar dtype := by
  obtain ⟨held, kind, bears⟩ := represents.bound member bound
  obtain rfl : held = scalar := Except.ok.inj (bears.meaning.symm.trans meaning)
  obtain rfl : kind = dtype := Option.some.inj (bears.type.symm.trans type)
  exact bears

/-- Known loop variables as words. -/
theorem Meaning.words_eq {env : Env} {refs : List LoopRef} {numbers : List Int}
    (known : refs.map (fun ref => env ref.id) = numbers.map some) :
    Meaning.words env refs = .ok (numbers.map Int64.ofInt) := by
  induction refs generalizing numbers with
  | nil =>
      cases numbers with
      | nil => rfl
      | cons number rest => cases known
  | cons ref refs ih =>
      cases numbers with
      | nil => cases known
      | cons number rest =>
          rw [List.map_cons, List.map_cons, List.cons.injEq] at known
          have others := ih known.2
          unfold Meaning.words at others ⊢
          rw [List.mapM_cons, known.1, others]
          rfl

/-- An index tuple over known loop variables. -/
theorem Meaning.indices_eq {env : Env} {exprs : List Expr} {map : AffineMap} {refs : List LoopRef}
    {numbers : List Int} (read : Extraction.access exprs [] = .ok map refs)
    (known : refs.map (fun ref => env ref.id) = numbers.map some) :
    Meaning.indices env exprs = Meaning.evalMap map (numbers.map Int64.ofInt) := by
  simp only [Meaning.indices, read, Meaning.words_eq known]
  rfl

theorem Meaning.contents_eq {memory : Memory} {tensor : Tensor} {buffer : Buffer}
    (held : memory tensor.id = some buffer) : Meaning.contents memory tensor = .ok buffer := by
  simp only [Meaning.contents, held]

/-- An access to known contents with known loop variables. -/
theorem Meaning.load_eq {env : Env} {memory : Memory} {tensor : Tensor} {exprs : List Expr}
    {map : AffineMap} {refs : List LoopRef} {numbers : List Int} {buffer : Buffer}
    (read : Extraction.access exprs [] = .ok map refs)
    (known : refs.map (fun ref => env ref.id) = numbers.map some)
    (held : memory tensor.id = some buffer) :
    Meaning.load env memory tensor exprs =
      Meaning.evalMap map (numbers.map Int64.ofInt) >>= Meaning.read buffer := by
  simp only [Meaning.load, Meaning.indices_eq read known, Meaning.contents_eq held]
  rfl

/-- A read from a buffer of scalars that fit a type. -/
theorem Meaning.read_proper {buffer : Buffer} {dtype : DType}
    (fits : ∀ scalar ∈ buffer.data, scalar.Fits dtype) (tuple : List Int64) :
    Proper dtype (Meaning.read buffer tuple) := by
  unfold Meaning.read
  cases found : buffer.get? tuple with
  | none => exact (nofun : Fault.outOfBounds tuple buffer.shape ≠ .meaningless)
  | some scalar =>
      obtain ⟨offset, -, held⟩ := Option.bind_eq_some_iff.mp found
      exact fits scalar (Array.mem_of_getElem? held)

/-- An access to a buffer of scalars that fit a type. -/
theorem Meaning.access_proper {buffer : Buffer} {dtype : DType} {map : AffineMap}
    {words : List Int64} (fits : ∀ scalar ∈ buffer.data, scalar.Fits dtype) :
    Proper dtype (Meaning.evalMap map words >>= Meaning.read buffer) := by
  cases evaluated : Meaning.evalMap map words with
  | error fault =>
      have sort : fault ≠ .meaningless :=
        fun same => Meaning.evalMap_ne_meaningless map words (same ▸ evaluated)
      exact sort
  | ok tuple => exact Meaning.read_proper fits tuple

namespace BuildM

/-- A constant operation computes the scalar of its attribute. -/
theorem createConstant_computes (nodes : Expr → Prop) {dtype : DType} {literal : Attribute}
    (proper : Proper dtype (Meaning.constant dtype literal)) (ends : context.AtEnds) :
    Ensures (createValue .constant [] (.scalar dtype) [("value", literal)]) context
      (fun value after =>
        Computes nodes context after (fun _ => Meaning.constant dtype literal)
          (Holds dtype value) ∧
        after.module.valueType? value = some (.scalar dtype))
      (fun _ => True) := by
  have start : Computes nodes context context (fun _ => .ok ()) fun _ _ => True :=
    Computes.of_known fun _ => ⟨(), rfl, trivial⟩
  refine createValue_computes (fun _ _ => Meaning.constant dtype literal) start ends ?_
  intro module run id op setting frame machine _ carries extends_ represents _ _
  have attr : op.attr? "value" = some literal := by
    rw [Operation.attr?, carries.attributes]
    rfl
  exact ⟨Machine.constant_defines carries.found carries.kind carries.results attr, proper⟩

/-- A load computes the element that its access addresses. -/
theorem emitLoad_computes (graph : Graph nodes) {id : NodeId} {tensor : Tensor}
    {indices : List Expr} (member : nodes (.load id tensor indices)) (ends : context.AtEnds) :
    Ensures (emitLoad tensor indices) context
      (fun value after =>
        Computes nodes context after
          (fun setting => Meaning.load setting.env setting.memory tensor indices)
          (Holds tensor.dtype value) ∧
        after.module.valueType? value = some (.scalar tensor.dtype))
      (fun _ => True) := by
  simp only [emitLoad, storageOf, ensures_bind, ensures_get]
  cases stored : context.storage? tensor with
  | none => trivial
  | some memref =>
      simp only [ensures_pure]
      refine (affineAccess_reads indices context).mono ?_ fun _ _ => trivial
      rintro ⟨map, operands⟩ middle ⟨refs, read, rfl, bound⟩
      have stand := Extraction.access_stands graph.operands (graph.operands member) read
      have start : Computes nodes context
          (context.emit (.affineAccess refs.length indices.length)) (fun _ => .ok ())
          fun _ _ => True :=
        Computes.of_emit (Computes.of_known fun _ => ⟨(), rfl, trivial⟩)
      refine createValue_computes
        (fun setting _ => Meaning.load setting.env setting.memory tensor indices) start ends ?_
      intro module run id op setting frame machine _ carries extends_ represents _ _
      obtain ⟨handle, buffer, backs⟩ := represents.stored stored
      obtain ⟨numbers, known, found⟩ := represents.numbers stand bound
      have attr : (op.attr? "map").bind Attribute.asMap? = some map := by
        rw [Operation.attr?, carries.attributes]
        rfl
      rw [Meaning.load_eq read known backs.known]
      refine ⟨?_, Meaning.access_proper (represents.fits member rfl backs.known)⟩
      exact Machine.load_defines carries.found carries.kind carries.operands attr backs.found
        backs.held found

/-! ## Nodes -/

/-- A node that is bound already. -/
theorem bound_computes {expr : Expr} {value : Value} (member : nodes expr)
    (bound : context.binding? expr.id = some (.value value)) :
    Computes nodes context context (fun setting => setting.value expr) fun _ _ => True := by
  refine Computes.of_known fun represents => ?_
  obtain ⟨scalar, dtype, bears⟩ := represents.bound member bound
  exact ⟨scalar, bears.meaning, trivial⟩

/-- A node that was just computed is bound to its value. -/
theorem bind_computes (graph : Graph nodes) {before : Context} {expr : Expr} {dtype : DType}
    {value : Value} (member : nodes expr) (type : expr.dtype? = some dtype)
    (unnamed : expr.loopName? = none) (free : before.binding? expr.id = none)
    (computes : Computes nodes before context (fun setting => setting.value expr)
      (Holds dtype value))
    (typed : context.module.valueType? value = some (.scalar dtype)) :
    Computes nodes before (context.bind expr.id (.value value))
      (fun setting => setting.value expr) fun _ _ => True where
  emits := computes.emits.trans (.bind context _ _)
  storage := computes.storage
  kept {id binding} found := by
    have different : ¬ expr.id = id := by
      intro same
      rw [← same, free] at found
      cases found
    have kept := computes.kept found
    rw [Context.binding?_bind, if_neg different]
    exact kept
  fresh {id binding} found := by
    rw [Context.binding?_bind] at found
    split at found
    · rename_i same
      exact .inr ⟨expr, member, unnamed, same⟩
    · exact computes.fresh found
  runs := by
    obtain ⟨ops, lists, performs⟩ := computes.runs
    refine ⟨ops, lists, fun module run setting frame machine extends_ represents => ?_⟩
    refine (performs module run setting frame machine extends_ represents).mono ?_
    rintro scalar step last meaning ⟨next, same, heap, agrees, reached, fits, found⟩
    refine ⟨next, same, heap, agrees, ?_, trivial⟩
    refine
      { entered := reached.entered
        bound := fun {other held} inside known => ?_
        stored := reached.stored
        fits := reached.fits }
    rw [Context.binding?_bind] at known
    split at known
    · rename_i sameId
      obtain rfl : other = expr := (graph.unique member inside sameId).symm
      cases known
      exact ⟨scalar, dtype, type, fits, meaning, found, typed⟩
    · exact reached.bound inside known

/-- The value that a node is bound to after it was built. -/
def Built (nodes : Expr → Prop) (expr : Expr) (before : Context) (binding : Binding)
    (after : Context) : Prop :=
  ∀ value, binding = .value value → after.binding? expr.id = some (.value value) ∧
    Computes nodes before after (fun setting => setting.value expr) fun _ _ => True

/-- A node is computed once. -/
theorem onceValue_built (graph : Graph nodes) (expr : Expr) {dtype : DType} {name : String}
    {action : BuildM Value} (member : nodes expr) (type : expr.dtype? = some dtype)
    (unnamed : expr.loopName? = none)
    (computes : ∀ event, Ensures action (context.emit event)
      (fun value after =>
        Computes nodes (context.emit event) after (fun setting => setting.value expr)
          (Holds dtype value) ∧
        after.module.valueType? value = some (.scalar dtype))
      (fun _ => True)) :
    Ensures (onceValue expr.id name action) context (Built nodes expr context) (fun _ => True) := by
  rw [onceValue, once, ensures_bind, ensures_get]
  cases bound : context.binding? expr.id with
  | some binding =>
      rw [ensures_pure]
      rintro value rfl
      exact ⟨bound, bound_computes member bound⟩
  | none =>
      simp only [ensures_bind, ensures_emit, ensures_map, ensures_bindNode, ensures_pure]
      refine (computes _).mono ?_ fun _ _ => trivial
      rintro value after ⟨computed, typed⟩ held same
      cases same
      refine ⟨by simp [Context.binding?_bind], ?_⟩
      exact bind_computes graph member type unnamed bound (Computes.of_emit computed) typed

/-- A loop variable is bound by its loop. -/
theorem loopVar_built (expr : Expr) {name label : String} (member : nodes expr) :
    Ensures (onceValue expr.id label (throw (.unboundLoopVar name))) context
      (Built nodes expr context) (fun _ => True) := by
  rw [onceValue, once, ensures_bind, ensures_get]
  cases bound : context.binding? expr.id with
  | some binding =>
      rw [ensures_pure]
      rintro value rfl
      exact ⟨bound, bound_computes member bound⟩
  | none => trivial

/-- An operand is built, and then something is done with its value. -/
theorem operand_built {α : Type} {expr : Expr} {name : String} {next : Value → BuildM α}
    {done : α → Context → Prop}
    (built : Ensures (build expr) context (Built nodes expr context) fun _ => True)
    (continues : ∀ value middle, middle.binding? expr.id = some (.value value) →
      Computes nodes context middle (fun setting => setting.value expr) (fun _ _ => True) →
      Ensures (next value) middle done fun _ => True) :
    Ensures (build expr >>= fun binding => needValue name binding >>= next) context done
      (fun _ => True) := by
  rw [ensures_bind]
  refine built.mono (fun binding middle made => ?_) fun _ _ => trivial
  cases binding with
  | op id => trivial
  | value value =>
      obtain ⟨bound, computes⟩ := made value rfl
      exact continues value middle bound computes

theorem castKind_cases (source target : DType) :
    castKind source target = .indexCast ∨ castKind source target = .conversionCast := by
  unfold castKind
  split
  · exact .inl rfl
  · exact .inr rfl

theorem lower_isArithmetic {kind : BinaryKind} {dtype : DType} {op : OpKind}
    (lowered : kind.lower dtype = .ok op) : op.isArithmetic = true := by
  cases sort : dtype.category <;> cases kind <;>
    simp only [BinaryKind.lower, sort] at lowered <;> cases lowered <;> try rfl
  all_goals split <;> rfl

theorem emitBinary_computes {before : Context} {id : NodeId} {dtype : DType} {kind : BinaryKind}
    {lhs rhs : Expr} {a b : Value} (left : nodes lhs) (right : nodes rhs)
    (formed : (Expr.binary id dtype kind lhs rhs).Formed) (ends : before.AtEnds)
    (boundLeft : context.binding? lhs.id = some (.value a))
    (boundRight : context.binding? rhs.id = some (.value b))
    (start : Computes nodes before context
      (fun setting => do return (← setting.value lhs, ← setting.value rhs)) fun _ _ => True) :
    Ensures (emitBinary kind dtype a b) context
      (fun value after =>
        Computes nodes before after (fun setting => setting.value (.binary id dtype kind lhs rhs))
          (Holds dtype value) ∧
        after.module.valueType? value = some (.scalar dtype))
      (fun _ => True) := by
  obtain ⟨typeLeft, ⟨op, lowered⟩, rightType, typeRight, meets⟩ := formed
  have quotient : Ensures (createValue op [a, b] (.scalar dtype) []) context
      (fun value after =>
        Computes nodes before after
          (fun setting => (do return (← setting.value lhs, ← setting.value rhs)) >>=
            fun pair => Meaning.arithmetic op dtype pair.1 pair.2) (Holds dtype value) ∧
        after.module.valueType? value = some (.scalar dtype))
      (fun _ => True) := by
    refine createValue_computes (fun _ pair => Meaning.arithmetic op dtype pair.1 pair.2) start ends ?_
    intro module run id found setting frame machine pair carries extends_ represents meaning _
    obtain ⟨leftValue, rightValue⟩ := Except.pair_eq_ok meaning
    have bearsLeft := represents.operand left boundLeft leftValue typeLeft
    have bearsRight := represents.operand right boundRight rightValue typeRight
    have kinds : found.kind = op := carries.kind
    refine ⟨?_, ?_⟩
    · rw [← kinds]
      refine Machine.arithmetic_defines carries.found ?_ carries.results carries.operands
        bearsLeft.found bearsRight.found
      rw [kinds]
      exact lower_isArithmetic lowered
    · exact Meaning.arithmetic_proper lowered bearsLeft.fits bearsRight.fits meets.category
  rw [emitBinary, lowered]
  simp only [liftExcept, pure_bind, ensures_bind]
  refine quotient.mono (fun result after made => ?_) fun _ _ => trivial
  have value : ∀ setting : Setting, setting.value (.binary id dtype kind lhs rhs) =
      (do return (← setting.value lhs, ← setting.value rhs)) >>= fun pair =>
        Meaning.binary kind dtype pair.1 pair.2 := by
    intro setting
    rw [Except.pair_bind]
    simp only [Setting.value, Expr.value]
  split
  · rename_i floors
    have float : dtype.category = .float := (isFloat_iff dtype).mp floors.2
    have floorMeaning : ∀ lhs rhs, Meaning.binary kind dtype lhs rhs =
        Meaning.arithmetic op dtype lhs rhs >>= Meaning.unary .floor dtype := by
      intro lhs rhs
      simp only [Meaning.binary, lowered, if_pos floors]
    simp only [value, floorMeaning, ← bind_assoc]
    refine createValue_computes (fun _ => Meaning.unary .floor dtype) made.1 ends ?_
    intro module run id found setting frame machine scalar carries extends_ represents _ holds
    refine ⟨?_, Meaning.unary_proper rfl holds.1 float float⟩
    have kinds : found.kind = .floor := carries.kind
    rw [← kinds]
    refine Machine.unary_defines carries.found ?_ carries.results carries.operands holds.2
    rw [kinds]
    rfl
  · rename_i plain
    have plainMeaning : ∀ lhs rhs, Meaning.binary kind dtype lhs rhs =
        Meaning.arithmetic op dtype lhs rhs := by
      intro lhs rhs
      simp only [Meaning.binary, lowered, if_neg plain, bind_pure]
    simp only [value, plainMeaning, ensures_pure]
    exact made

/-- Two operands are built, and then something is done with their values. -/
theorem operands_built {α : Type} {lhs rhs : Expr} {leftName rightName : String}
    {next : Value → Value → BuildM α} {done : α → Context → Prop} (ends : context.AtEnds)
    (left : Ensures (build lhs) context (Built nodes lhs context) fun _ => True)
    (right : ∀ {middle : Context}, middle.AtEnds →
      Ensures (build rhs) middle (Built nodes rhs middle) fun _ => True)
    (continues : ∀ a b middle, middle.binding? lhs.id = some (.value a) →
      middle.binding? rhs.id = some (.value b) →
      Computes nodes context middle
        (fun setting => do return (← setting.value lhs, ← setting.value rhs)) (fun _ _ => True) →
      Ensures (next a b) middle done fun _ => True) :
    Ensures (build lhs >>= fun binding => needValue leftName binding >>= fun a =>
      build rhs >>= fun binding => needValue rightName binding >>= next a) context done
      (fun _ => True) := by
  refine operand_built left fun a middle bound start => ?_
  refine operand_built (right (start.emits.atEnds ends)) fun b last boundRight end_ => ?_
  exact continues a b last (end_.kept bound) boundRight (start.seq end_ ends)

/-- Building an expression without reductions, stores and calls computes its value. -/
theorem build_built (graph : Graph nodes) : ∀ (expr : Expr) {context : Context},
    expr.isFlat = true → nodes expr → context.AtEnds →
    Ensures (build expr) context (Built nodes expr context) fun _ => True
  | .constant id dtype literal, context, _, member, ends => by
      rw [build]
      refine onceValue_built graph (.constant id dtype literal) member rfl rfl fun event => ?_
      exact createConstant_computes nodes (Meaning.constant_proper literal dtype) ends
  | .loopVar id name, context, _, member, _ => by
      rw [build]
      exact loopVar_built (.loopVar id name) member
  | .axis id name lower upper, context, _, member, _ => by
      rw [build]
      exact loopVar_built (.axis id name lower upper) member
  | .unary id dtype kind operand, context, flat, member, ends => by
      have inside : nodes operand := graph.operands member operand (by simp [Expr.operands])
      obtain ⟨float, type⟩ := graph.formed member
      have flatOperand : operand.isFlat = true := by simpa [Expr.isFlat] using flat
      rw [build]
      refine onceValue_built graph (.unary id dtype kind operand) member rfl rfl fun event => ?_
      refine operand_built (build_built graph operand flatOperand inside ends)
        fun value middle bound start => ?_
      refine createValue_computes (fun _ => Meaning.unary kind.lower dtype) start ends ?_
      intro module run id op setting frame machine scalar carries extends_ represents meaning _
      have bears := represents.operand inside bound meaning type
      obtain ⟨function, known⟩ := Meaning.lower_floatFunction kind
      refine ⟨?_, Meaning.unary_proper known bears.fits float float⟩
      have arithmetic : op.kind.isArithmetic = true := by
        rw [carries.kind]
        cases kind <;> rfl
      have lowered : op.kind = kind.lower := carries.kind
      rw [← lowered]
      exact Machine.unary_defines carries.found arithmetic carries.results carries.operands
        bears.found
  | .binary id dtype kind lhs rhs, context, flat, member, ends => by
      have left : nodes lhs := graph.operands member lhs (by simp [Expr.operands])
      have right : nodes rhs := graph.operands member rhs (by simp [Expr.operands])
      obtain ⟨flatLeft, flatRight⟩ : lhs.isFlat = true ∧ rhs.isFlat = true := by
        simpa [Expr.isFlat] using flat
      rw [build]
      refine onceValue_built graph (.binary id dtype kind lhs rhs) member rfl rfl fun event => ?_
      refine operands_built ends (build_built graph lhs flatLeft left ends)
        (build_built graph rhs flatRight right) fun a b middle boundLeft boundRight start => ?_
      exact emitBinary_computes left right (graph.formed member) ends boundLeft boundRight start
  | .compare id kind lhs rhs, context, flat, member, ends => by
      have left : nodes lhs := graph.operands member lhs (by simp [Expr.operands])
      have right : nodes rhs := graph.operands member rhs (by simp [Expr.operands])
      obtain ⟨flatLeft, flatRight⟩ : lhs.isFlat = true ∧ rhs.isFlat = true := by
        simpa [Expr.isFlat] using flat
      obtain ⟨leftType, rightType, typeLeft, typeRight, meets⟩ := graph.formed member
      rw [build]
      refine onceValue_built graph (.compare id kind lhs rhs) member rfl rfl fun event => ?_
      simp only [valueType, typeLeft, pure_bind]
      refine operands_built ends (build_built graph lhs flatLeft left ends)
        (build_built graph rhs flatRight right) fun a b middle boundLeft boundRight start => ?_
      have value : ∀ setting : Setting, setting.value (.compare id kind lhs rhs) =
          (do return (← setting.value lhs, ← setting.value rhs)) >>= fun pair =>
            Meaning.compare kind leftType pair.1 pair.2 := by
        intro setting
        rw [Except.pair_bind]
        simp only [Setting.value, Expr.value, typeLeft]
      simp only [value]
      refine createValue_computes (fun _ pair => Meaning.compare kind leftType pair.1 pair.2)
        start ends ?_
      intro module run id op setting frame machine pair carries extends_ represents meaning _
      obtain ⟨leftValue, rightValue⟩ := Except.pair_eq_ok meaning
      have bearsLeft := represents.operand left boundLeft leftValue typeLeft
      have bearsRight := represents.operand right boundRight rightValue typeRight
      have attr : op.attr? "predicate" = some (.int64 (kind.code leftType)) := by
        rw [Operation.attr?, carries.attributes]
        rfl
      refine ⟨?_, Meaning.compare_proper bearsLeft.fits bearsRight.fits meets.category⟩
      exact Machine.compare_defines carries.found carries.kind carries.operands attr
        (extends_.valueType? bearsLeft.typed) bearsLeft.found bearsRight.found
  | .cast id dtype source, context, flat, member, ends => by
      have inside : nodes source := graph.operands member source (by simp [Expr.operands])
      obtain ⟨sourceType, type, different⟩ := graph.formed member
      have flatSource : source.isFlat = true := by simpa [Expr.isFlat] using flat
      rw [build]
      refine onceValue_built graph (.cast id dtype source) member rfl rfl fun event => ?_
      simp only [valueType, type, pure_bind]
      refine operand_built (build_built graph source flatSource inside ends)
        fun value middle bound start => ?_
      have meaningOf : ∀ setting : Setting, setting.value (.cast id dtype source) =
          setting.value source >>= fun scalar => .ok (scalar.convert sourceType dtype) := by
        intro setting
        simp only [Setting.value, Expr.value, type]
      simp only [meaningOf, emitCast, if_neg different]
      refine createValue_computes (fun _ scalar => .ok (scalar.convert sourceType dtype))
        start ends ?_
      intro module run id op setting frame machine scalar carries extends_ represents meaning _
      have bears := represents.operand inside bound meaning type
      have kinds : op.kind = .indexCast ∨ op.kind = .conversionCast := by
        rw [carries.kind]
        exact castKind_cases sourceType dtype
      refine ⟨?_, Scalar.convert_fits scalar sourceType dtype⟩
      exact Machine.cast_defines carries.found kinds carries.results carries.operands
        (extends_.valueType? bears.typed) bears.found
  | .load id tensor indices, context, _, member, ends => by
      rw [build]
      refine onceValue_built graph (.load id tensor indices) member rfl rfl fun event => ?_
      exact emitLoad_computes graph member ends
  | .select id dtype condition thenValue elseValue, context, flat, member, ends => by
      have first : nodes condition := graph.operands member condition (by simp [Expr.operands])
      have second : nodes thenValue := graph.operands member thenValue (by simp [Expr.operands])
      have third : nodes elseValue := graph.operands member elseValue (by simp [Expr.operands])
      obtain ⟨⟨flatFirst, flatSecond⟩, flatThird⟩ :
          (condition.isFlat = true ∧ thenValue.isFlat = true) ∧ elseValue.isFlat = true := by
        simpa [Expr.isFlat] using flat
      obtain ⟨typeFirst, typeSecond, typeThird⟩ := graph.formed member
      rw [build]
      refine onceValue_built graph (.select id dtype condition thenValue elseValue) member rfl rfl
        fun event => ?_
      refine operands_built ends (build_built graph condition flatFirst first ends)
        (build_built graph thenValue flatSecond second)
        fun c t middle boundFirst boundSecond start => ?_
      refine operand_built (build_built graph elseValue flatThird third
        (start.emits.atEnds ends)) fun e last boundThird end_ => ?_
      have value : ∀ setting : Setting,
          setting.value (.select id dtype condition thenValue elseValue) =
            (do return (← (do return (← setting.value condition, ← setting.value thenValue)),
              ← setting.value elseValue)) >>= fun triple =>
                Meaning.select triple.1.1 triple.1.2 triple.2 := by
        intro setting
        rw [Except.pair_bind, Except.pair_bind]
        simp only [Setting.value, Expr.value]
      simp only [value]
      refine createValue_computes
        (fun _ triple => Meaning.select triple.1.1 triple.1.2 triple.2) (start.seq end_ ends) ends ?_
      intro module run id op setting frame machine triple carries extends_ represents meaning _
      obtain ⟨firstTwo, thirdValue⟩ := Except.pair_eq_ok meaning
      obtain ⟨firstValue, secondValue⟩ := Except.pair_eq_ok firstTwo
      have bearsFirst := represents.operand first (end_.kept boundFirst) firstValue typeFirst
      have bearsSecond := represents.operand second (end_.kept boundSecond) secondValue typeSecond
      have bearsThird := represents.operand third boundThird thirdValue typeThird
      refine ⟨?_, Meaning.select_proper bearsFirst.fits bearsSecond.fits bearsThird.fits⟩
      exact Machine.select_defines carries.found carries.kind carries.operands bearsFirst.found
        bearsSecond.found bearsThird.found
  | .getBit id source bit, context, flat, member, ends => by
      have left : nodes source := graph.operands member source (by simp [Expr.operands])
      have right : nodes bit := graph.operands member bit (by simp [Expr.operands])
      obtain ⟨flatLeft, flatRight⟩ : source.isFlat = true ∧ bit.isFlat = true := by
        simpa [Expr.isFlat] using flat
      obtain ⟨⟨sourceType, typeLeft, integer⟩, typeRight⟩ := graph.formed member
      rw [build]
      refine onceValue_built graph (.getBit id source bit) member rfl rfl fun event => ?_
      refine operands_built ends (build_built graph source flatLeft left ends)
        (build_built graph bit flatRight right) fun a b middle boundLeft boundRight start => ?_
      have value : ∀ setting : Setting, setting.value (.getBit id source bit) =
          (do return (← setting.value source, ← setting.value bit)) >>= fun pair =>
            Meaning.getBit sourceType pair.1 pair.2 := by
        intro setting
        rw [Except.pair_bind]
        simp only [Setting.value, Expr.value, typeLeft]
      simp only [value]
      refine createValue_computes (fun _ pair => Meaning.getBit sourceType pair.1 pair.2)
        start ends ?_
      intro module run id op setting frame machine pair carries extends_ represents meaning _
      obtain ⟨leftValue, rightValue⟩ := Except.pair_eq_ok meaning
      have bearsLeft := represents.operand left boundLeft leftValue typeLeft
      have bearsRight := represents.operand right boundRight rightValue typeRight
      refine ⟨?_, Meaning.getBit_proper integer bearsLeft.fits bearsRight.fits⟩
      exact Machine.getBit_defines carries.found carries.kind carries.operands
        (extends_.valueType? bearsLeft.typed) bearsLeft.found bearsRight.found
  | .store .., _, flat, _, _ | .call .., _, flat, _, _ | .reduce .., _, flat, _, _ => by cases flat

end BuildM

end AffineKernel
