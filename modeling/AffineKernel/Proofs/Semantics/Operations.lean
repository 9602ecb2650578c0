import AffineKernel.Build.Lowering
import AffineKernel.Proofs.Semantics.Delivery
import AffineKernel.Proofs.Semantics.Frames

/-!
# What operations compute

One lemma for each sort of operation with a scalar result. It is about a module
that has the operation and a frame in which its operands have values; the
operation then defines its result as the primitive of `Meaning` says
(`Machine.Defines`), and changes no buffer.
-/

set_option autoImplicit false

namespace AffineKernel

/-- The kinds of operations that the machine hands to the arithmetic. -/
def OpKind.isArithmetic : OpKind → Bool
  | .func | .yield | .ret | .constant | .alloc | .load | .store | .affineFor | .affineIf | .call
  | .indexCast | .conversionCast | .select | .getBit | .cmpI | .cmpFixed | .cmpF => false
  | _ => true

/-- The data that a function is called with. -/
def handles (base count : Nat) : List Datum :=
  (List.range count).map fun position => .buffer (base + position)

namespace Machine

namespace Site

variable {site : Site} {frame : Frame} {value : Value} {α : Type}

/-! ## Operands and attributes -/

theorem scalar_eq {scalar : Scalar} (found : frame.find? value = some (.scalar scalar)) :
    site.scalar frame value = pure scalar := by
  simp only [Site.scalar, lookup, found]
  rfl

/-- An integer, or the failure of an operand of the wrong sort. -/
def needInt (site : Site) : Scalar → Exec Int
  | .int value => pure value
  | .float _ => throw (site.wrongOperand .integer)

/-- A float, or the failure of an operand of the wrong sort. -/
def needFloat (site : Site) : Scalar → Exec Float
  | .float x => pure x
  | .int _ => throw (site.wrongOperand .float)

theorem int_eq {scalar : Scalar} (found : frame.find? value = some (.scalar scalar)) :
    site.int frame value = site.needInt scalar := by
  simp only [Site.int, scalar_eq found, pure_bind]
  cases scalar <;> rfl

theorem float_eq {scalar : Scalar} (found : frame.find? value = some (.scalar scalar)) :
    site.float frame value = site.needFloat scalar := by
  simp only [Site.float, scalar_eq found, pure_bind]
  cases scalar <;> rfl

theorem buffer_eq {handle : Nat} (found : frame.find? value = some (.buffer handle)) :
    site.buffer frame value = pure handle := by
  simp only [Site.buffer, lookup, found]
  rfl

theorem operand_eq {position : Nat} (listed : site.op.operands[position]? = some value) :
    site.operand position = pure value := by
  simp only [operand, listed]
  rfl

theorem operandDType_eq {position : Nat} {type : ValueType}
    (listed : site.op.operands[position]? = some value)
    (typed : site.module.valueType? value = some type) :
    site.operandDType position = pure type.dtype := by
  simp only [operandDType, operand_eq listed, pure_bind, typed]
  rfl

theorem attr_eq {name : String} {form : Attribute → Option α} {a : α}
    (known : (site.op.attr? name).bind form = some a) : site.attr name form = pure a := by
  simp only [attr, known]

theorem checked_eq {overflows : Bool} (fits : overflows = false) :
    site.checked overflows = pure () := by
  rw [checked, fits]
  rfl

theorem checked_delivers (site : Site) (overflows : Bool) (machine : Machine) :
    Delivers (site.checked overflows machine) (Meaning.checked overflows)
      fun _ _ after => after = machine := by
  cases overflows <;> rfl

/-- Operands that hold integers, as words. -/
theorem words_eq {values : List Value} {numbers : List Int}
    (holds : values.map frame.find? = numbers.map fun number => some (.scalar (.int number))) :
    site.words frame values = pure (numbers.map Int64.ofInt) := by
  induction values generalizing numbers with
  | nil =>
      cases numbers with
      | nil => rfl
      | cons number rest => cases holds
  | cons value values ih =>
      cases numbers with
      | nil => cases holds
      | cons number rest =>
          rw [List.map_cons, List.map_cons, List.cons.injEq] at holds
          have others := ih holds.2
          rw [Site.words] at others
          simp only [Site.words, List.mapM_cons, int_eq holds.1, needInt, pure_bind, others]
          rfl

/-- An access evaluates its map. -/
theorem access_delivers {machine : Machine} {map : AffineMap} {values : List Value}
    {numbers : List Int} (known : (site.op.attr? "map").bind Attribute.asMap? = some map)
    (holds : values.map frame.find? = numbers.map fun number => some (.scalar (.int number))) :
    Delivers (site.access frame values machine)
      (Meaning.evalMap map (numbers.map Int64.ofInt))
      fun tuple actual after => actual = tuple ∧ after = machine := by
  simp only [Site.access, attr_eq known, words_eq holds, pure_bind, Site.evalMap, Meaning.evalMap]
  refine (site.checked_delivers _ machine).bind ?_
  rintro - - after rfl
  cases map.eval ((numbers.map Int64.ofInt).take map.dims)
      ((numbers.map Int64.ofInt).drop map.dims) with
  | some tuple => exact ⟨rfl, rfl⟩
  | none => rfl

/-- What is put in the place of a known buffer. -/
theorem modify_eq {heap : Array Buffer} {handle : Nat} {buffer : Buffer}
    (held : heap[handle]? = some buffer) (change : Buffer → Buffer) :
    heap.modify handle change = heap.modify handle fun _ => change buffer := by
  apply Array.ext_getElem?
  intro position
  rw [Array.getElem?_modify, Array.getElem?_modify]
  by_cases same : handle = position
  · rw [if_pos same, if_pos same, ← same, held]
    rfl
  · rw [if_neg same, if_neg same]

end Site

/-! ## Operations with a scalar result -/

variable {module : Module} {run : RunBlock} {id : OpId} {op : Operation} {frame : Frame}
  {machine : Machine}

/-- An operation defines its result as a meaning says, and changes no buffer. -/
def Defines (module : Module) (run : RunBlock) (id : OpId) (frame : Frame) (machine : Machine)
    (meaning : Except Fault Scalar) : Prop :=
  Delivers (runOp module run id frame machine) meaning fun scalar step after =>
    step = .next (frame.define (.result id 0) (.scalar scalar)) ∧ after.heap = machine.heap

/-- An operation whose meaning has a value goes on with it. -/
theorem Defines.apply {scalar : Scalar} (defines : Defines module run id frame machine (.ok scalar)) :
    ∃ last, runOp module run id frame machine =
      .ok (.next (frame.define (.result id 0) (.scalar scalar))) last ∧
        last.heap = machine.heap := by
  have realizes : Realizes (runOp module run id frame machine) (.ok scalar)
      fun scalar step last => step = .next (frame.define (.result id 0) (.scalar scalar)) ∧
        last.heap = machine.heap := ⟨by simp, defines⟩
  obtain ⟨step, last, ran, rfl, heap⟩ := realizes.exists_ok rfl
  exact ⟨last, ran, heap⟩

/-- The step that defines the result of an operation. -/
def defining (id : OpId) (frame : Frame) (action : Exec Scalar) : Exec Step := do
  let scalar ← action
  return .next (frame.define (.result id 0) (.scalar scalar))

theorem defines_of_eq {action : Exec Scalar} {meaning : Except Fault Scalar}
    (runs : runOp module run id frame = defining id frame action)
    (delivers : Delivers (action machine) meaning fun expected actual after =>
      actual = expected ∧ after.heap = machine.heap) :
    Defines module run id frame machine meaning := by
  have whole : Delivers ((defining id frame action) machine) (meaning >>= pure)
      fun scalar step after =>
        step = .next (frame.define (.result id 0) (.scalar scalar)) ∧
          after.heap = machine.heap := by
    refine delivers.bind fun scalar actual after same => ?_
    exact ⟨by rw [same.1], same.2⟩
  rw [Defines, runs]
  rwa [bind_pure] at whole

/-- What is needed is there. -/
theorem require_some {α : Type} (a : α) : require (some a) = (pure a : Exec α) := rfl

/-- Operands that all have data. -/
theorem lookups_eq {values : List Value} {data : List Datum}
    (holds : values.map frame.find? = data.map some) :
    values.mapM (lookup frame) = (pure data : Exec (List Datum)) := by
  induction values generalizing data with
  | nil =>
      cases data with
      | nil => rfl
      | cons datum rest => cases holds
  | cons value values ih =>
      cases data with
      | nil => cases holds
      | cons datum rest =>
          rw [List.map_cons, List.map_cons, List.cons.injEq] at holds
          rw [List.mapM_cons, ih holds.2, lookup, holds.1]
          rfl

section Found

variable (found : module.op? id = some op)
include found

/-- The operation as it is executed. -/
abbrev site (_ : module.op? id = some op) : Site := ⟨module, id, op⟩

theorem runOp_constant (kind : op.kind = .constant) :
    runOp module run id frame = defining id frame (site found).constant := by
  rw [runOp, found, require_some, pure_bind]
  simp only [kind]
  rfl

theorem runOp_load (kind : op.kind = .load) :
    runOp module run id frame = defining id frame ((site found).load frame) := by
  rw [runOp, found, require_some, pure_bind]
  simp only [kind]
  rfl

theorem runOp_arithmetic (kind : op.kind.isArithmetic = true) :
    runOp module run id frame = defining id frame ((site found).arithmetic frame) := by
  rw [runOp, found, require_some, pure_bind]
  cases sort : op.kind <;> simp only [sort, OpKind.isArithmetic, Bool.false_eq_true] at kind <;> rfl

theorem runOp_cast (kind : op.kind = .indexCast ∨ op.kind = .conversionCast) :
    runOp module run id frame = defining id frame ((site found).cast frame) := by
  rw [runOp, found, require_some, pure_bind]
  rcases kind with kind | kind <;> simp only [kind] <;> rfl

theorem runOp_select (kind : op.kind = .select) :
    runOp module run id frame = defining id frame ((site found).select frame) := by
  rw [runOp, found, require_some, pure_bind]
  simp only [kind]
  rfl

theorem runOp_getBit (kind : op.kind = .getBit) :
    runOp module run id frame = defining id frame ((site found).getBit frame) := by
  rw [runOp, found, require_some, pure_bind]
  simp only [kind]
  rfl

theorem runOp_compareInts (kind : op.kind = .cmpI ∨ op.kind = .cmpFixed) :
    runOp module run id frame = defining id frame ((site found).compareInts frame) := by
  rw [runOp, found, require_some, pure_bind]
  rcases kind with kind | kind <;> simp only [kind] <;> rfl

theorem runOp_compareFloats (kind : op.kind = .cmpF) :
    runOp module run id frame = defining id frame ((site found).compareFloats frame) := by
  rw [runOp, found, require_some, pure_bind]
  simp only [kind]
  rfl

theorem constant_defines (kind : op.kind = .constant) {dtype : DType}
    (results : op.results = [.scalar dtype]) {attr : Attribute}
    (known : op.attr? "value" = some attr) :
    Defines module run id frame machine (Meaning.constant dtype attr) := by
  refine defines_of_eq (runOp_constant found kind) ?_
  simp only [Site.constant, Site.resultDType?, results, known]
  cases attr with
  | int value type => exact ⟨rfl, rfl⟩
  | float value type => exact ⟨rfl, rfl⟩
  | _ => rfl

theorem unary_defines (kind : op.kind.isArithmetic = true) {dtype : DType}
    (results : op.results = [.scalar dtype]) {value : Value} (operands : op.operands = [value])
    {operand : Scalar} (known : frame.find? value = some (.scalar operand)) :
    Defines module run id frame machine (Meaning.unary op.kind dtype operand) := by
  refine defines_of_eq (runOp_arithmetic found kind) ?_
  simp only [Site.arithmetic, Site.resultDType?, results, operands, Site.scalar_eq known,
    pure_bind, List.head?_cons, Option.map_some, Option.getD_some, ValueType.dtype, Site.unary,
    Meaning.unary]
  cases operand with
  | int value => rfl
  | float x =>
      cases op.kind.floatFunction? with
      | none => rfl
      | some function => exact ⟨rfl, rfl⟩

theorem arithmetic_defines (kind : op.kind.isArithmetic = true) {dtype : DType}
    (results : op.results = [.scalar dtype]) {left right : Value}
    (operands : op.operands = [left, right]) {lhs rhs : Scalar}
    (leftKnown : frame.find? left = some (.scalar lhs))
    (rightKnown : frame.find? right = some (.scalar rhs)) :
    Defines module run id frame machine (Meaning.arithmetic op.kind dtype lhs rhs) := by
  refine defines_of_eq (runOp_arithmetic found kind) ?_
  simp only [Site.arithmetic, Site.resultDType?, results, operands, Site.scalar_eq leftKnown,
    Site.scalar_eq rightKnown, pure_bind, List.head?_cons, Option.map_some, Option.getD_some,
    ValueType.dtype, Site.binary, Meaning.arithmetic]
  cases Arithmetic.binary op.kind dtype lhs rhs with
  | ok scalar => exact ⟨rfl, rfl⟩
  | error error => cases error <;> rfl

theorem cast_defines (kind : op.kind = .indexCast ∨ op.kind = .conversionCast) {dtype : DType}
    (results : op.results = [.scalar dtype]) {value : Value} (operands : op.operands = [value])
    {source : DType} (typed : module.valueType? value = some (.scalar source))
    {operand : Scalar} (known : frame.find? value = some (.scalar operand)) :
    Defines module run id frame machine (.ok (operand.convert source dtype)) := by
  have listed : (site found).op.operands[0]? = some value := by simp [operands]
  refine defines_of_eq (runOp_cast found kind) ?_
  simp only [Site.cast, Site.operand_eq listed, Site.scalar_eq known, Site.operandDType_eq listed typed,
    pure_bind, Site.resultDType?, results]
  exact ⟨rfl, rfl⟩

theorem select_defines (kind : op.kind = .select) {first second third : Value}
    (operands : op.operands = [first, second, third]) {condition thenValue elseValue : Scalar}
    (conditionKnown : frame.find? first = some (.scalar condition))
    (thenKnown : frame.find? second = some (.scalar thenValue))
    (elseKnown : frame.find? third = some (.scalar elseValue)) :
    Defines module run id frame machine (Meaning.select condition thenValue elseValue) := by
  have listed : (site found).op.operands[0]? = some first := by simp [operands]
  have listedThen : (site found).op.operands[1]? = some second := by simp [operands]
  have listedElse : (site found).op.operands[2]? = some third := by simp [operands]
  refine defines_of_eq (runOp_select found kind) ?_
  simp only [Site.select, Site.operand_eq listed, Site.int_eq conditionKnown, pure_bind]
  cases condition with
  | float x => rfl
  | int value =>
      simp only [Site.needInt, pure_bind, Meaning.select]
      split
      · rw [Site.operand_eq listedThen, pure_bind, Site.scalar_eq thenKnown]
        exact ⟨rfl, rfl⟩
      · rw [Site.operand_eq listedElse, pure_bind, Site.scalar_eq elseKnown]
        exact ⟨rfl, rfl⟩

theorem getBit_defines (kind : op.kind = .getBit) {first second : Value}
    (operands : op.operands = [first, second]) {source : DType}
    (typed : module.valueType? first = some (.scalar source)) {value position : Scalar}
    (valueKnown : frame.find? first = some (.scalar value))
    (positionKnown : frame.find? second = some (.scalar position)) :
    Defines module run id frame machine (Meaning.getBit source value position) := by
  have listed : (site found).op.operands[0]? = some first := by simp [operands]
  have listedBit : (site found).op.operands[1]? = some second := by simp [operands]
  refine defines_of_eq (runOp_getBit found kind) ?_
  simp only [Site.getBit, Site.operand_eq listed, Site.operand_eq listedBit, Site.int_eq valueKnown,
    Site.int_eq positionKnown, Site.operandDType_eq listed typed, pure_bind]
  cases value with
  | float x => rfl
  | int value =>
      cases position with
      | float x => rfl
      | int position => exact ⟨rfl, rfl⟩

theorem compareInts_defines {pred : IntPredicate} {source : DType}
    (kind : op.kind = .cmpI ∨ op.kind = .cmpFixed) {left right : Value}
    (operands : op.operands = [left, right])
    (known : op.attr? "predicate" = some (.int64 pred.code))
    (typed : module.valueType? left = some (.scalar source)) {lhs rhs : Scalar}
    (leftKnown : frame.find? left = some (.scalar lhs))
    (rightKnown : frame.find? right = some (.scalar rhs)) :
    Defines module run id frame machine
      (Meaning.onInts (Meaning.compareInts pred source.width) lhs rhs) := by
  have listed : (site found).op.operands[0]? = some left := by simp [operands]
  have listedRight : (site found).op.operands[1]? = some right := by simp [operands]
  have code : ((site found).op.attr? "predicate").bind
      (fun attr => attr.asInt?.bind IntPredicate.ofCode?) = some pred := by
    simp [known, Attribute.int64, Attribute.asInt?, IntPredicate.ofCode?_code]
  refine defines_of_eq (runOp_compareInts found kind) ?_
  simp only [Site.compareInts, Site.attr_eq code, Site.operand_eq listed,
    Site.operand_eq listedRight, Site.int_eq leftKnown, Site.int_eq rightKnown,
    Site.operandDType_eq listed typed, pure_bind]
  cases lhs with
  | float x => rfl
  | int a =>
      cases rhs with
      | float x => rfl
      | int b => exact ⟨rfl, rfl⟩

theorem compareFloats_defines {pred : FloatPredicate} (kind : op.kind = .cmpF)
    {left right : Value} (operands : op.operands = [left, right])
    (known : op.attr? "predicate" = some (.int64 pred.code)) {lhs rhs : Scalar}
    (leftKnown : frame.find? left = some (.scalar lhs))
    (rightKnown : frame.find? right = some (.scalar rhs)) :
    Defines module run id frame machine
      (Meaning.onFloats (fun a b => Meaning.truth (pred.holds a b)) lhs rhs) := by
  have listed : (site found).op.operands[0]? = some left := by simp [operands]
  have listedRight : (site found).op.operands[1]? = some right := by simp [operands]
  have code : ((site found).op.attr? "predicate").bind
      (fun attr => attr.asInt?.bind FloatPredicate.ofCode?) = some pred := by
    simp [known, Attribute.int64, Attribute.asInt?, FloatPredicate.ofCode?_code]
  refine defines_of_eq (runOp_compareFloats found kind) ?_
  simp only [Site.compareFloats, Site.attr_eq code, Site.operand_eq listed,
    Site.operand_eq listedRight, Site.float_eq leftKnown, Site.float_eq rightKnown, pure_bind]
  cases lhs with
  | int x => rfl
  | float a =>
      cases rhs with
      | int x => rfl
      | float b => exact ⟨rfl, rfl⟩

/-- The comparison that an operator is lowered to. -/
theorem compare_defines {comparison : Comparison} {source : DType}
    (kind : op.kind = .compareFor source.category) {left right : Value}
    (operands : op.operands = [left, right])
    (known : op.attr? "predicate" = some (.int64 (comparison.code source)))
    (typed : module.valueType? left = some (.scalar source)) {lhs rhs : Scalar}
    (leftKnown : frame.find? left = some (.scalar lhs))
    (rightKnown : frame.find? right = some (.scalar rhs)) :
    Defines module run id frame machine (Meaning.compare comparison source lhs rhs) := by
  simp only [Meaning.compare]
  cases sort : source.category with
  | float =>
      rw [Comparison.code, sort] at known
      exact compareFloats_defines found (by rw [kind, sort]; rfl) operands known leftKnown
        rightKnown
  | int =>
      rw [Comparison.code, sort] at known
      exact compareInts_defines found (.inl (by rw [kind, sort]; rfl)) operands known typed
        leftKnown rightKnown
  | fixed =>
      rw [Comparison.code, sort] at known
      exact compareInts_defines found (.inr (by rw [kind, sort]; rfl)) operands known typed
        leftKnown rightKnown

/-- A load reads the element that its access addresses. -/
theorem load_defines (kind : op.kind = .load) {memref : Value} {rest : List Value}
    (operands : op.operands = memref :: rest) {map : AffineMap}
    (known : (op.attr? "map").bind Attribute.asMap? = some map) {handle : Nat} {buffer : Buffer}
    (placed : frame.find? memref = some (.buffer handle))
    (held : machine.heap[handle]? = some buffer) {numbers : List Int}
    (holds : rest.map frame.find? = numbers.map fun number => some (.scalar (.int number))) :
    Defines module run id frame machine
      (Meaning.evalMap map (numbers.map Int64.ofInt) >>= Meaning.read buffer) := by
  have listed : (site found).op.operands[0]? = some memref := by simp [operands]
  have others : (site found).op.operands.drop 1 = rest := by simp [operands]
  refine defines_of_eq (runOp_load found kind) ?_
  simp only [Site.load, Site.operand_eq listed, Site.buffer_eq placed, pure_bind, others]
  refine (Site.access_delivers known holds).bind ?_
  rintro tuple actual after ⟨rfl, rfl⟩
  have fetched : (get >>= fun machine => require machine.heap[handle]? : Exec Buffer) after =
      .ok buffer after := by
    change require after.heap[handle]? after = _
    rw [held]
    rfl
  rw [← bind_assoc]
  refine Delivers.of_ok fetched ?_
  unfold Meaning.read
  cases buffer.get? actual with
  | some scalar => exact ⟨rfl, rfl⟩
  | none => rfl

/-! ## Stores and allocations -/

theorem runOp_store (kind : op.kind = .store) :
    runOp module run id frame = (site found).store frame >>= fun _ => pure (.next frame) := by
  rw [runOp, found, require_some, pure_bind]
  simp only [kind]

/-- A store writes the element that its access addresses. -/
theorem store_delivers (kind : op.kind = .store) {value memref : Value} {rest : List Value}
    (operands : op.operands = value :: memref :: rest) {map : AffineMap}
    (known : (op.attr? "map").bind Attribute.asMap? = some map) {scalar : Scalar}
    (stored : frame.find? value = some (.scalar scalar)) {handle : Nat} {buffer : Buffer}
    (placed : frame.find? memref = some (.buffer handle))
    (held : machine.heap[handle]? = some buffer) {numbers : List Int}
    (holds : rest.map frame.find? = numbers.map fun number => some (.scalar (.int number))) :
    Delivers (runOp module run id frame machine)
      (Meaning.evalMap map (numbers.map Int64.ofInt) >>= fun tuple =>
        Meaning.write buffer tuple scalar)
      fun written step after =>
        step = .next frame ∧ after.heap = machine.heap.modify handle fun _ => written := by
  have listed : (site found).op.operands[0]? = some value := by simp [operands]
  have listedBuffer : (site found).op.operands[1]? = some memref := by simp [operands]
  have others : (site found).op.operands.drop 2 = rest := by simp [operands]
  rw [runOp_store found kind]
  simp only [Site.store, Site.operand_eq listed, Site.scalar_eq stored,
    Site.operand_eq listedBuffer, Site.buffer_eq placed, pure_bind, others, bind_assoc]
  refine (Site.access_delivers known holds).bind ?_
  rintro tuple actual after ⟨rfl, rfl⟩
  have shaped : Site.shapeOf handle after = .ok buffer.shape after := by
    change require (after.heap[handle]?.map Buffer.shape) after = _
    rw [held]
    rfl
  refine Delivers.of_ok shaped ?_
  unfold Meaning.write
  cases Buffer.offset? buffer.shape actual with
  | none => rfl
  | some offset =>
      exact ⟨rfl, Site.modify_eq held fun buffer => buffer.put offset scalar⟩

theorem runOp_alloc (kind : op.kind = .alloc) :
    runOp module run id frame = (site found).alloc >>= fun handle =>
      pure (.next (frame.define (.result id 0) (.buffer handle))) := by
  rw [runOp, found, require_some, pure_bind]
  simp only [kind]

theorem alloc_apply (kind : op.kind = .alloc) {shape : List Nat} {dtype : DType}
    (results : op.results = [.memref shape dtype]) (small : Buffer.allocates shape = true) :
    runOp module run id frame machine =
      .ok (.next (frame.define (.result id 0) (.buffer machine.heap.size)))
        { machine with heap := machine.heap.push (.zeros shape dtype) } := by
  have fits : (!Buffer.allocates ((ValueType.memref shape dtype).shape?.getD [])) = false := by
    rw [ValueType.shape?, Option.getD_some, small, Bool.not_true]
  rw [runOp_alloc found kind, Site.alloc]
  simp only [results, List.head?_cons, require_some, pure_bind, Site.checked_eq fits]
  rfl

/-- A buffer with too many elements is not allocated. -/
theorem alloc_overflows (kind : op.kind = .alloc) {shape : List Nat} {dtype : DType}
    (results : op.results = [.memref shape dtype]) (large : Buffer.allocates shape = false) :
    runOp module run id frame machine = .error (.overflow id op.kind) machine := by
  have leaves : (!Buffer.allocates ((ValueType.memref shape dtype).shape?.getD [])) = true := by
    rw [ValueType.shape?, Option.getD_some, large, Bool.not_false]
  rw [runOp_alloc found kind, Site.alloc]
  simp only [results, List.head?_cons, require_some, pure_bind, Site.checked, leaves, if_true]
  rfl

/-! ## The ends of blocks -/

/-- The end of a loop or a conditional does nothing, and so does a function among operations. -/
theorem runOp_idle (kind : op.kind = .yield ∨ op.kind = .func) :
    runOp module run id frame = pure (.next frame) := by
  rw [runOp, found, require_some, pure_bind]
  rcases kind with kind | kind <;> simp only [kind]

theorem runOp_ret (kind : op.kind = .ret) :
    runOp module run id frame =
      op.operands.mapM (lookup frame) >>= fun data => pure (.returned data) := by
  rw [runOp, found, require_some, pure_bind]
  simp only [kind]

theorem ret_apply (kind : op.kind = .ret) {data : List Datum}
    (holds : op.operands.map frame.find? = data.map some) :
    runOp module run id frame machine = .ok (.returned data) machine := by
  rw [runOp_ret found kind, lookups_eq holds]
  rfl

end Found

/-! ## Calls -/

/-- The run of a function is that of its block. -/
theorem runFunction_apply {module : Module} {run : RunBlock} {func : OpId} {body : BlockId}
    {block : Block} {name : String} {args : List Datum} {machine : Machine}
    (region : module.region? func 0 = some body) (listed : module.block? body = some block)
    (arity : args.length = block.args.length) :
    runFunction module run func name args machine =
      (run body args [] >>= fun values => pure (values.getD []))
        { machine with log := machine.log.push (.interpret name args.length) } := by
  simp only [runFunction, region, listed, require, pure_bind, arity, ne_eq, not_true, ↓reduceIte]
  rfl

/-- The buffers of a call, as they are on a heap. -/
def returned (base count : Nat) (heap : Array Buffer) : List Buffer :=
  (List.range count).filterMap fun position => heap[base + position]?

/-- A call replies what the run of the function ends in. -/
theorem call_apply {module : Module} {depth : Nat} {name : String} {buffers : List Buffer}
    {machine : Machine} {func : OpId} (named : module.function? name = some func) :
    (call module depth name buffers machine).1 =
      match runFunction module (runBlock module depth) func name
        (handles machine.heap.size buffers.length)
        ⟨machine.heap ++ buffers.toArray, machine.log⟩ with
      | .ok values last =>
        ⟨scalarResults func values, returned machine.heap.size buffers.length last.heap⟩
      | .error error _ => ⟨.error error, buffers⟩ := by
  simp only [call, named, handles, returned]
  cases runFunction module (runBlock module depth) func name
    ((List.range buffers.length).map fun position => Datum.buffer (machine.heap.size + position))
    ⟨machine.heap ++ buffers.toArray, machine.log⟩ <;> rfl

end Machine

end AffineKernel
