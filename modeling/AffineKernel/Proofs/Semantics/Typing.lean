import AffineKernel.Proofs.IR.Signature
import AffineKernel.Proofs.Semantics.Control

/-!
# Types of data

A datum has a type on a heap: a scalar fits a scalar type, and the handle of a
buffer is of the type of buffers of its shape and element type. A frame is typed
in a module when each of its values is one that the module has, with a datum of
its type (`Frame.Typed`); a heap is filled when the elements of its buffers fit
their types (`HeapFits`).

Operands of the types that a signature asks for can be read: the action ends in
what was asked for, or in an overflow, or in a failure that types do not exclude
(`Machine.Reads`). What an operation computes then fits the type of its result.
One lemma for each sort of operation says so, and none of them looks at more
than the operation itself.
-/

set_option autoImplicit false

namespace AffineKernel

/-- The failures that the types of a module do not exclude. -/
def RunError.isDynamic : RunError → Bool
  | .argumentMismatch .. | .undefinedValue _ | .outOfBounds .. | .divisionByZero .. => true
  | _ => false

/-- The failures that types do not exclude, or an overflow. -/
def RunError.isExcused : RunError → Bool
  | .overflow .. => true
  | error => error.isDynamic

/-- A datum of a type, where the buffers in use have handles from `base` on. -/
def Datum.Typed (base : Nat) (heap : Array Buffer) : ValueType → Datum → Prop
  | .scalar dtype, .scalar held => held.Fits dtype
  | .memref shape element, .buffer handle => base ≤ handle ∧
      ∃ held, heap[handle]? = some held ∧ held.shape = shape ∧ held.element = element
  | _, _ => False

/-- In every scope of a frame, the values are values of the module, with data of their types. -/
def Frame.Typed (module : Module) (base : Nat) (heap : Array Buffer) (frame : Frame) : Prop :=
  ∀ scope ∈ frame, ∀ value datum, Table.find? scope value = some datum →
    ∃ type, module.valueType? value = some type ∧ datum.Typed base heap type

/-- A type that a kernel can have: its width is that of a word at most, and not zero. -/
def DType.Valid (dtype : DType) : Prop := 0 < dtype.width ∧ dtype.width ≤ maxIntWidth

instance (dtype : DType) : Decidable dtype.Valid :=
  inferInstanceAs (Decidable (0 < dtype.width ∧ dtype.width ≤ maxIntWidth))

/-- A valid type with its point inside. -/
def DType.Proper (dtype : DType) : Prop := dtype.Valid ∧ dtype.fraction ≤ dtype.width

instance (dtype : DType) : Decidable dtype.Proper :=
  inferInstanceAs (Decidable (dtype.Valid ∧ dtype.fraction ≤ dtype.width))

/-- An attribute whose type is proper, if it is an integer. -/
def Attribute.Proper : Attribute → Prop
  | .int _ type => type.Proper
  | _ => True

instance : DecidablePred Attribute.Proper
  | .int _ type => inferInstanceAs (Decidable type.Proper)
  | .float .. | .str _ | .affineMap _ | .integerSet _ | .symbol _ | .unit =>
    inferInstanceAs (Decidable True)

/-- A buffer of a valid type whose elements fit the type. -/
structure Buffer.Fits (buffer : Buffer) : Prop where
  valid : buffer.element.Valid
  elements : ∀ scalar ∈ buffer.data, scalar.Fits buffer.element

/-- The elements of the buffers from `base` on fit their types. -/
def HeapFits (base : Nat) (heap : Array Buffer) : Prop :=
  ∀ (handle : Nat) (buffer : Buffer), base ≤ handle → heap[handle]? = some buffer → buffer.Fits

/-- The buffers of a heap are there later, with their shapes and element types. -/
def HeapKeeps (before after : Array Buffer) : Prop :=
  ∀ (handle : Nat) (buffer : Buffer), before[handle]? = some buffer →
    ∃ later, after[handle]? = some later ∧ later.shape = buffer.shape ∧ later.element = buffer.element

namespace HeapKeeps

variable {before middle after : Array Buffer}

theorem refl (heap : Array Buffer) : HeapKeeps heap heap :=
  fun _ buffer held => ⟨buffer, held, rfl, rfl⟩

theorem trans (first : HeapKeeps before middle) (second : HeapKeeps middle after) :
    HeapKeeps before after := by
  intro handle buffer held
  obtain ⟨later, held, shape, element⟩ := first handle buffer held
  obtain ⟨last, held, lastShape, lastElement⟩ := second handle later held
  exact ⟨last, held, lastShape.trans shape, lastElement.trans element⟩

/-- No buffer is lost. -/
theorem size_le (keeps : HeapKeeps before after) : before.size ≤ after.size := by
  cases count : before.size with
  | zero => exact Nat.zero_le _
  | succ last =>
      have held : before[last]? = some before[last] := Array.getElem?_eq_getElem (by omega)
      obtain ⟨later, found, -⟩ := keeps last _ held
      exact (Array.getElem?_eq_some_iff.mp found).1

theorem push (heap : Array Buffer) (buffer : Buffer) : HeapKeeps heap (heap.push buffer) := by
  intro handle other held
  obtain ⟨small, -⟩ := Array.getElem?_eq_some_iff.mp held
  refine ⟨other, ?_, rfl, rfl⟩
  rw [Array.getElem?_push, if_neg (Nat.ne_of_lt small), held]

/-- Putting an element into a buffer keeps its type. -/
theorem put (heap : Array Buffer) (handle offset : Nat) (scalar : Scalar) :
    HeapKeeps heap (heap.modify handle fun buffer => buffer.put offset scalar) := by
  intro other buffer held
  rw [Array.getElem?_modify, held]
  by_cases same : handle = other
  · rw [if_pos same]
    exact ⟨_, rfl, rfl, rfl⟩
  · rw [if_neg same]
    exact ⟨_, rfl, rfl, rfl⟩

end HeapKeeps

namespace HeapFits

variable {base : Nat} {heap : Array Buffer}

theorem push (fits : HeapFits base heap) {buffer : Buffer} (filled : buffer.Fits) :
    HeapFits base (heap.push buffer) := by
  intro handle other above held
  rw [Array.getElem?_push] at held
  split at held
  · cases held
    exact filled
  · exact fits handle other above held

/-- Putting a scalar that fits into a buffer. -/
theorem put (fits : HeapFits base heap) {handle : Nat} {buffer : Buffer}
    (held : heap[handle]? = some buffer) {scalar : Scalar} (filled : scalar.Fits buffer.element)
    (offset : Nat) :
    HeapFits base (heap.modify handle fun buffer => buffer.put offset scalar) := by
  intro other changed above found
  rw [Array.getElem?_modify] at found
  by_cases same : handle = other
  · subst same
    rw [if_pos rfl, held] at found
    cases found
    have before := fits handle buffer above held
    refine ⟨before.valid, fun element listed => ?_⟩
    rcases Array.mem_or_eq_of_mem_setIfInBounds listed with old | new
    · exact before.elements element old
    · exact new ▸ filled
  · rw [if_neg same] at found
    exact fits other changed above found

end HeapFits

theorem Scalar.zero_fits (dtype : DType) : (Scalar.zero dtype).Fits dtype := by
  unfold Scalar.zero
  by_cases float : dtype.isFloat = true
  · rw [if_pos float]
    exact float
  · rw [if_neg float]
    refine ⟨by simpa using float, ?_⟩
    simp [normalize, signed, unsigned]

theorem Buffer.zeros_fits (shape : List Nat) {element : DType} (valid : element.Valid) :
    (Buffer.zeros shape element).Fits := by
  refine ⟨valid, fun scalar listed => ?_⟩
  rw [Array.eq_of_mem_replicate listed]
  exact Scalar.zero_fits element

/-! ## Typed frames -/

section Frames

variable {module : Module} {base : Nat} {heap later : Array Buffer} {frame : Frame}

theorem Datum.Typed.of_keeps {type : ValueType} {datum : Datum} (keeps : HeapKeeps heap later)
    (typed : datum.Typed base heap type) : datum.Typed base later type := by
  cases type with
  | scalar dtype =>
      cases datum with
      | scalar scalar => exact typed
      | buffer handle => exact typed
  | memref shape element =>
      cases datum with
      | scalar scalar => exact typed
      | buffer handle =>
          obtain ⟨above, buffer, held, sameShape, sameElement⟩ := typed
          obtain ⟨last, held, lastShape, lastElement⟩ := keeps handle buffer held
          exact ⟨above, last, held, lastShape.trans sameShape, lastElement.trans sameElement⟩

namespace Frame.Typed

/-- What a typed frame says of its data. -/
theorem holds (typed : frame.Typed module base heap) : frame.Holds fun value datum =>
    ∃ type, module.valueType? value = some type ∧ datum.Typed base heap type := typed

theorem of_keeps (keeps : HeapKeeps heap later) (typed : frame.Typed module base heap) :
    frame.Typed module base later :=
  typed.holds.mono fun _ _ ⟨type, known, typed⟩ => ⟨type, known, typed.of_keeps keeps⟩

/-- What is found in a typed frame has the type of its value. -/
theorem find (typed : frame.Typed module base heap) {value : Value} {datum : Datum}
    {type : ValueType} (known : module.valueType? value = some type)
    (found : frame.find? value = some datum) : datum.Typed base heap type := by
  obtain ⟨other, same, typed⟩ := typed.holds.find found
  obtain rfl : other = type := Option.some.inj (same.symm.trans known)
  exact typed

/-- Defining a value by a datum of its type. -/
theorem define (typed : frame.Typed module base heap) {value : Value} {datum : Datum}
    {type : ValueType} (known : module.valueType? value = some type)
    (good : datum.Typed base heap type) : (frame.define value datum).Typed module base heap :=
  typed.holds.define ⟨type, known, good⟩

/-- Entering a block with data of the types of its arguments. -/
theorem enter (typed : frame.Typed module base heap) {body : BlockId} {block : Block}
    (listed : module.block? body = some block) {args : List Datum}
    (good : ∀ (position : Nat) (datum : Datum), args[position]? = some datum →
      ∃ type, block.args[position]? = some type ∧ datum.Typed base heap type) :
    (frame.enter body args).Typed module base heap := by
  refine typed.holds.enter fun position datum given => ?_
  obtain ⟨type, known, typed⟩ := good position datum given
  exact ⟨type, by simp [Module.valueType?, listed, known], typed⟩

end Frame.Typed

end Frames

namespace Machine

variable {α β : Type}

/-! ## Safe outcomes -/

/-- A run has a good result, or it ends in an overflow or in a failure that types do not exclude. -/
def Safe (outcome : EStateM.Result RunError Machine α) (good : α → Machine → Prop) : Prop :=
  match outcome with
  | .ok a machine => good a machine
  | .error error _ => error.isExcused = true

namespace Safe

variable {outcome : EStateM.Result RunError Machine α} {good better : α → Machine → Prop}

theorem mono (safe : Safe outcome good)
    (implied : ∀ a machine, good a machine → better a machine) : Safe outcome better := by
  cases outcome with
  | ok a machine => exact implied a machine safe
  | error error machine => exact safe

theorem bind {action : Exec β} {next : β → Exec α} {machine : Machine}
    {middle : β → Machine → Prop} (first : Safe (action machine) middle)
    (later : ∀ b after, middle b after → Safe (next b after) good) :
    Safe ((action >>= next) machine) good := by
  simp only [Bind.bind, EStateM.bind]
  cases outcome : action machine with
  | ok b after =>
      rw [outcome] at first
      exact later b after first
  | error error after =>
      rw [outcome] at first
      exact first

/-- A part of a run that has ended well. -/
theorem of_eq (safe : Safe outcome good) {a : α} {machine : Machine}
    (ended : outcome = .ok a machine) : good a machine := by
  rw [ended] at safe
  exact safe

end Safe

/-- An action that leaves the buffers alone and is safe on every machine. -/
def Reads (action : Exec α) (good : α → Prop) : Prop :=
  ∀ machine, Safe (action machine) fun a last => last.heap = machine.heap ∧ good a

namespace Reads

variable {action : Exec α} {good better : α → Prop}

theorem pure {a : α} (holds : good a) : Reads (pure a) good := fun _ => ⟨rfl, holds⟩

theorem mono (reads : Reads action good) (implied : ∀ a, good a → better a) :
    Reads action better :=
  fun machine => (reads machine).mono fun a _ holds => ⟨holds.1, implied a holds.2⟩

theorem bind {first : Exec β} {next : β → Exec α} {middle : β → Prop} (reads : Reads first middle)
    (later : ∀ b, middle b → Reads (next b) good) : Reads (first >>= next) good := by
  intro machine
  refine (reads machine).bind fun b after holds => ?_
  exact (later b holds.2 after).mono fun _ _ done => ⟨done.1.trans holds.1, done.2⟩

/-- Steps that each have a good result. -/
theorem mapM {γ : Type} {step : γ → Exec α} {items : List γ}
    (each : ∀ item ∈ items, Reads (step item) good) :
    Reads (items.mapM step) fun results => ∀ a ∈ results, good a := by
  induction items with
  | nil => exact .pure (by simp)
  | cons item rest ih =>
      rw [List.mapM_cons]
      refine (each item List.mem_cons_self).bind fun first holds => ?_
      refine (ih fun other listed => each other (List.mem_cons_of_mem item listed)).bind ?_
      exact fun others all => .pure (List.forall_mem_cons.mpr ⟨holds, all⟩)

/-- Reading is followed by something else. -/
theorem safe_bind {first : Exec β} {next : β → Exec α} {middle : β → Prop} {machine : Machine}
    {last : α → Machine → Prop} (reads : Reads first middle)
    (later : ∀ b after, after.heap = machine.heap → middle b → Safe (next b after) last) :
    Safe ((first >>= next) machine) last :=
  (reads machine).bind fun b after holds => later b after holds.1 holds.2

end Reads

/-! ## Operands and attributes -/

namespace Site

section Numbers

variable (site : Site)

theorem checked_reads (overflows : Bool) : Reads (site.checked overflows) fun _ => True := by
  cases overflows with
  | false => exact .pure trivial
  | true => exact fun _ => rfl

theorem defined_reads (found : Option α) : Reads (site.defined found) fun _ => True := by
  cases found with
  | none => exact fun _ => rfl
  | some a => exact .pure trivial

theorem evalMap_reads (map : AffineMap) (words : List Int64) :
    Reads (site.evalMap map words) fun _ => True :=
  (site.checked_reads _).bind fun _ _ => site.defined_reads _

end Numbers

variable (site : Site) {base : Nat} {heap : Array Buffer} {frame : Frame} {value : Value}
  {dtype : DType} (typed : frame.Typed site.module base heap)
include typed

theorem lookup_reads {type : ValueType} (known : site.module.valueType? value = some type) :
    Reads (lookup frame value) (Datum.Typed base heap type) := by
  intro machine
  rw [lookup]
  cases found : frame.find? value with
  | none => rfl
  | some datum => exact ⟨rfl, typed.find known found⟩

theorem scalar_reads (known : site.module.valueType? value = some (.scalar dtype)) :
    Reads (site.scalar frame value) (Scalar.Fits dtype) := by
  refine (lookup_reads site typed known).bind fun datum good => ?_
  cases datum with
  | scalar scalar => exact .pure good
  | buffer handle => exact good.elim

theorem int_reads (known : site.module.valueType? value = some (.scalar dtype))
    (raw : dtype.category ≠ .float) :
    Reads (site.int frame value) fun number => (Scalar.int number).Fits dtype := by
  refine (scalar_reads site typed known).bind fun scalar fits => ?_
  obtain ⟨number, rfl⟩ := fits.exists_int raw
  exact .pure fits

theorem float_reads (known : site.module.valueType? value = some (.scalar dtype))
    (float : dtype.category = .float) : Reads (site.float frame value) fun _ => True := by
  refine (scalar_reads site typed known).bind fun scalar fits => ?_
  obtain ⟨x, rfl⟩ := fits.exists_float float
  exact .pure trivial

theorem buffer_reads {shape : List Nat}
    (known : site.module.valueType? value = some (.memref shape dtype)) :
    Reads (site.buffer frame value) fun handle =>
      (Datum.buffer handle).Typed base heap (.memref shape dtype) := by
  refine (lookup_reads site typed known).bind fun datum good => ?_
  cases datum with
  | scalar scalar => exact good.elim
  | buffer handle => exact .pure good

theorem words_reads {values : List Value}
    (known : ∀ value ∈ values, site.module.valueType? value = some (.scalar .index)) :
    Reads (site.words frame values) fun _ => True := by
  have each : ∀ value ∈ values, Reads (do
      return Int64.ofInt (← site.int frame value)) fun _ => True := fun value listed =>
    (int_reads site typed (known value listed) (by decide)).bind fun number _ => .pure trivial
  exact (Reads.mapM each).mono fun _ _ => trivial

theorem access_reads {memref : Value} {indices : List Value} {shape : List Nat} {map : AffineMap}
    {exact : Prop}
    (accesses : site.op.Accesses exact site.module memref indices dtype shape map) :
    Reads (site.access frame indices) fun _ => True := by
  rw [access, attr_eq accesses.attr, pure_bind]
  exact (words_reads site typed accesses.index).bind fun words _ => site.evalMap_reads map words

end Site

/-! ## Arithmetic -/

theorem floatFunction_of_signature {kind : OpKind} (sort : kind.signature = .function) :
    ∃ function, kind.floatFunction? = some function := by
  cases kind <;> first | exact ⟨_, rfl⟩ | cases sort

/-- The operations of a category of raw numbers are ones that integers have. -/
theorem onInts_of_signature {kind : OpKind} {category : Category}
    (sort : kind.signature = .arithmetic category) (raw : category ≠ .float) (dtype : DType)
    (a b : Int) : Arithmetic.onInts kind dtype a b ≠ .error .unsupported := by
  cases kind <;>
    first
    | (cases sort; done)
    | (simp [Arithmetic.onInts, Meaning.divide_supported, Meaning.divideRegister_supported]; done)
    | (cases sort; exact absurd rfl raw)

theorem onFloats_of_signature {kind : OpKind} (sort : kind.signature = .arithmetic .float)
    (a b : Float) : ∃ x, Arithmetic.onFloats kind a b = .ok x := by
  cases kind <;> first | exact ⟨_, rfl⟩ | cases sort

/-- An operation of a category on operands of the category: its result fits the type, or it divides
by zero, or it overflows. -/
theorem binary_of_signature {kind : OpKind} {category : Category} {left right : DType}
    (sort : kind.signature = .arithmetic category) (sortLeft : left.category = category)
    (sortRight : right.category = category) {lhs rhs : Scalar} (fitsLeft : lhs.Fits left)
    (fitsRight : rhs.Fits right) :
    (∃ scalar, Arithmetic.binary kind left lhs rhs = .ok scalar ∧ scalar.Fits left) ∨
      ∃ error ≠ .unsupported, Arithmetic.binary kind left lhs rhs = .error error := by
  by_cases float : category = .float
  · subst float
    obtain ⟨a, rfl⟩ := fitsLeft.exists_float sortLeft
    obtain ⟨b, rfl⟩ := fitsRight.exists_float sortRight
    obtain ⟨x, computed⟩ := onFloats_of_signature sort a b
    exact .inl ⟨_, by rw [Arithmetic.binary, computed]; rfl, Scalar.fits_float _ sortLeft⟩
  · obtain ⟨a, rfl⟩ := fitsLeft.exists_int (sortLeft ▸ float)
    obtain ⟨b, rfl⟩ := fitsRight.exists_int (sortRight ▸ float)
    have supported := onInts_of_signature sort float left a b
    rw [Arithmetic.binary]
    cases computed : Arithmetic.onInts kind left a b with
    | ok y => exact .inl ⟨_, rfl, Scalar.fits_normalize y (sortLeft ▸ float)⟩
    | error error => exact .inr ⟨error, fun same => supported (same ▸ computed), rfl⟩

/-! ## Scalar results -/

section Found

variable {module : Module} {run : RunBlock} {id : OpId} {op : Operation} {base : Nat}
  {heap : Array Buffer} {frame : Frame} {machine : Machine} {dtype : DType}
  (found : module.op? id = some op)
include found

theorem constant_reads (results : op.results = [.scalar dtype]) {attr : Attribute}
    (known : op.attr? "value" = some attr) (number : attr.isNumber = true) :
    Reads (site found).constant (Scalar.Fits dtype) := by
  simp only [Site.constant, Site.resultDType?, results, known]
  cases attr with
  | int value type => exact .pure (Scalar.convert_fits ..)
  | float value type => exact .pure (Scalar.convert_fits ..)
  | _ => cases number

variable (typed : frame.Typed module base heap)
include typed

theorem unary_reads (sort : op.kind.signature = .function) {value : Value}
    (operands : op.operands = [value]) (known : module.valueType? value = some (.scalar dtype))
    (results : op.results = [.scalar dtype]) (float : dtype.category = .float) :
    Reads ((site found).arithmetic frame) (Scalar.Fits dtype) := by
  obtain ⟨function, lowered⟩ := floatFunction_of_signature sort
  simp only [Site.arithmetic, Site.resultDType?, results, operands]
  refine (Site.scalar_reads (site found) typed known).bind fun scalar fits => ?_
  obtain ⟨x, rfl⟩ := fits.exists_float float
  simp only [Site.unary, lowered]
  exact fun machine => ⟨rfl, Scalar.fits_float _ float⟩

theorem arithmetic_reads {category : Category} (sort : op.kind.signature = .arithmetic category)
    {lhs rhs : Value} {left right : DType} (operands : op.operands = [lhs, rhs])
    (matched : module.Matches category lhs rhs left right) (results : op.results = [.scalar left]) :
    Reads ((site found).arithmetic frame) (Scalar.Fits left) := by
  simp only [Site.arithmetic, Site.resultDType?, results, operands]
  refine (Site.scalar_reads (site found) typed matched.typeLeft).bind fun a fitsLeft => ?_
  refine (Site.scalar_reads (site found) typed matched.typeRight).bind fun b fitsRight => ?_
  simp only [Site.binary, List.head?_cons, Option.map_some, Option.getD_some, ValueType.dtype]
  rcases binary_of_signature sort matched.sortLeft matched.sortRight fitsLeft fitsRight with
    ⟨scalar, computed, fits⟩ | ⟨error, sort, failed⟩
  · rw [computed]
    exact .pure fits
  · rw [failed]
    cases error with
    | unsupported => exact absurd rfl sort
    | divisionByZero | overflow => exact fun machine => rfl

theorem cast_reads {value : Value} {source : DType} (operands : op.operands = [value])
    (known : module.valueType? value = some (.scalar source))
    (results : op.results = [.scalar dtype]) :
    Reads ((site found).cast frame) (Scalar.Fits dtype) := by
  have listed : (site found).op.operands[0]? = some value := by simp [operands]
  simp only [Site.cast, Site.operand_eq listed, Site.operandDType_eq listed known, pure_bind,
    Site.resultDType?, results]
  exact (Site.scalar_reads (site found) typed known).bind fun scalar _ =>
    .pure (Scalar.convert_fits ..)

theorem select_reads {condition thenValue elseValue : Value}
    (operands : op.operands = [condition, thenValue, elseValue])
    (first : module.valueType? condition = some (.scalar .bool))
    (second : module.valueType? thenValue = some (.scalar dtype))
    (third : module.valueType? elseValue = some (.scalar dtype)) :
    Reads ((site found).select frame) (Scalar.Fits dtype) := by
  have listed : (site found).op.operands[0]? = some condition := by simp [operands]
  have listedThen : (site found).op.operands[1]? = some thenValue := by simp [operands]
  have listedElse : (site found).op.operands[2]? = some elseValue := by simp [operands]
  rw [Site.select, Site.operand_eq listed, pure_bind]
  refine (Site.int_reads (site found) typed first (by decide)).bind fun number _ => ?_
  split
  · rw [Site.operand_eq listedThen, pure_bind]
    exact Site.scalar_reads (site found) typed second
  · rw [Site.operand_eq listedElse, pure_bind]
    exact Site.scalar_reads (site found) typed third

theorem getBit_reads {value position : Value} (operands : op.operands = [value, position])
    (first : module.valueType? value = some (.scalar dtype)) (integer : dtype.category = .int)
    (second : module.valueType? position = some (.scalar .index)) :
    Reads ((site found).getBit frame) (Scalar.Fits .bool) := by
  have listed : (site found).op.operands[0]? = some value := by simp [operands]
  have listedBit : (site found).op.operands[1]? = some position := by simp [operands]
  simp only [Site.getBit, Site.operand_eq listed, Site.operand_eq listedBit,
    Site.operandDType_eq listed first, pure_bind]
  refine (Site.int_reads (site found) typed first (by rw [integer]; decide)).bind
    fun number _ => ?_
  refine (Site.int_reads (site found) typed second (by decide)).bind fun place _ => ?_
  exact .pure (Meaning.bit_fits ..)

theorem compareInts_reads {category : Category} (raw : category ≠ .float) {lhs rhs : Value}
    {left right : DType} (operands : op.operands = [lhs, rhs])
    (matched : module.Matches category lhs rhs left right) {code : Int64}
    (known : (op.attr? "predicate").bind Attribute.asInt? = some code)
    (valid : category.hasPredicate code = true) :
    Reads ((site found).compareInts frame) (Scalar.Fits .bool) := by
  have listed : (site found).op.operands[0]? = some lhs := by simp [operands]
  have listedRight : (site found).op.operands[1]? = some rhs := by simp [operands]
  obtain ⟨pred, predicate⟩ : ∃ pred, IntPredicate.ofCode? code = some pred := by
    cases category with
    | float => exact absurd rfl raw
    | int | fixed => exact Option.isSome_iff_exists.mp valid
  obtain ⟨attr, given, asInt⟩ := Option.bind_eq_some_iff.mp known
  have spelled : ((site found).op.attr? "predicate").bind
      (fun attr => attr.asInt?.bind IntPredicate.ofCode?) = some pred := by
    simp [given, asInt, predicate]
  simp only [Site.compareInts, Site.attr_eq spelled, Site.operand_eq listed,
    Site.operand_eq listedRight, Site.operandDType_eq listed matched.typeLeft, pure_bind]
  refine (Site.int_reads (site found) typed matched.typeLeft
    (matched.sortLeft ▸ raw)).bind fun a _ => ?_
  refine (Site.int_reads (site found) typed matched.typeRight
    (matched.sortRight ▸ raw)).bind fun b _ => ?_
  exact .pure (Meaning.truth_fits _)

theorem compareFloats_reads {lhs rhs : Value} {left right : DType}
    (operands : op.operands = [lhs, rhs]) (matched : module.Matches .float lhs rhs left right)
    {code : Int64} (known : (op.attr? "predicate").bind Attribute.asInt? = some code)
    (valid : Category.float.hasPredicate code = true) :
    Reads ((site found).compareFloats frame) (Scalar.Fits .bool) := by
  have listed : (site found).op.operands[0]? = some lhs := by simp [operands]
  have listedRight : (site found).op.operands[1]? = some rhs := by simp [operands]
  obtain ⟨pred, predicate⟩ := Option.isSome_iff_exists.mp valid
  obtain ⟨attr, given, asInt⟩ := Option.bind_eq_some_iff.mp known
  have spelled : ((site found).op.attr? "predicate").bind
      (fun attr => attr.asInt?.bind FloatPredicate.ofCode?) = some pred := by
    simp [given, asInt, predicate]
  simp only [Site.compareFloats, Site.attr_eq spelled, Site.operand_eq listed,
    Site.operand_eq listedRight, pure_bind]
  refine (Site.float_reads (site found) typed matched.typeLeft matched.sortLeft).bind
    fun a _ => ?_
  refine (Site.float_reads (site found) typed matched.typeRight matched.sortRight).bind
    fun b _ => ?_
  exact .pure (Meaning.truth_fits _)

end Found

end Machine

end AffineKernel
