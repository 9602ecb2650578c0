import AffineKernel.Build.Access
import AffineKernel.Build.Lowering
import AffineKernel.Proofs.Build.Outcome
import AffineKernel.Semantics.Arithmetic
import AffineKernel.Semantics.Buffer
import AffineKernel.Semantics.Error

/-!
# The meaning of expressions

What an expression stands for, without any operation or block: its value is
found by recursion on the tree, from the values of loop variables and from the
contents of the tensors. Constants, operators, comparisons, conversions and
accesses mean what the machine makes of the operations that they are lowered to,
and operands are all evaluated, from left to right. A computation that has no
value ends in a `Fault`.
-/

set_option autoImplicit false

namespace AffineKernel

/-- Why a computation has no value. -/
inductive Fault where
  | divisionByZero
  /-- An access leaves its tensor. -/
  | outOfBounds (indices : List Int64) (shape : List Nat)
  /-- A number leaves the integers that hold it. -/
  | overflow
  /-- An operation has no meaning for what it is applied to. -/
  | meaningless
deriving DecidableEq

/-- The fault behind the failure of a run. -/
def RunError.fault : RunError → Fault
  | .divisionByZero .. => .divisionByZero
  | .outOfBounds indices shape => .outOfBounds indices shape
  | .overflow .. => .overflow
  | _ => .meaningless

/-- Values of loop variables. -/
abbrev Env := NodeId → Option Int

/-- Contents of tensors. -/
abbrev Memory := NodeId → Option Buffer

namespace Meaning

/-! ## Primitives -/

/-- Goes on unless a number has left the integers that hold it. -/
def checked (overflows : Bool) : Except Fault Unit :=
  if overflows then .error .overflow else .ok ()

theorem checked_ne_meaningless (overflows : Bool) :
    checked overflows ≠ .error .meaningless := by
  cases overflows <;> nofun

/-- The scalar of a constant attribute. -/
def constant (dtype : DType) : Attribute → Except Fault Scalar
  | .int value type => .ok ((Scalar.int (normalize value.toInt type)).convert type dtype)
  | .float value _ => .ok ((Scalar.float value).convert .float64 dtype)
  | _ => .error .meaningless

/-- A function of one operand. -/
def unary (kind : OpKind) (dtype : DType) (operand : Scalar) : Except Fault Scalar :=
  match operand, kind.floatFunction? with
  | .float x, some function => .ok (.float (roundFloat (function x) dtype))
  | _, _ => .error .meaningless

/-- An operation of two operands. -/
def arithmetic (kind : OpKind) (dtype : DType) (lhs rhs : Scalar) : Except Fault Scalar :=
  match Arithmetic.binary kind dtype lhs rhs with
  | .ok scalar => .ok scalar
  | .error .unsupported => .error .meaningless
  | .error .divisionByZero => .error .divisionByZero
  | .error .overflow => .error .overflow

/-- An operator of two operands; a floor quotient of floats is a quotient and its floor. -/
def binary (kind : BinaryKind) (dtype : DType) (lhs rhs : Scalar) : Except Fault Scalar :=
  match kind.lower dtype with
  | .error _ => .error .meaningless
  | .ok op => do
    let result ← arithmetic op dtype lhs rhs
    if kind = .floorDiv ∧ dtype.isFloat then unary .floor dtype result else return result

/-- A truth value as a scalar. -/
def truth (holds : Bool) : Scalar := .int (if holds then 1 else 0)

/-- A comparison of integers or raw fixed point numbers of a width. -/
def compareInts (pred : IntPredicate) (width : Nat) (lhs rhs : Int) : Scalar :=
  let read (value : Int) := if pred.isUnsigned then unsigned value width else signed value width
  truth (pred.holds (read lhs) (read rhs))

/-- A function of two integers. -/
def onInts (function : Int → Int → Scalar) : Scalar → Scalar → Except Fault Scalar
  | .int a, .int b => .ok (function a b)
  | _, _ => .error .meaningless

/-- A function of two floats. -/
def onFloats (function : Float → Float → Scalar) : Scalar → Scalar → Except Fault Scalar
  | .float a, .float b => .ok (function a b)
  | _, _ => .error .meaningless

/-- A comparison of operands of a type. -/
def compare (kind : Comparison) (dtype : DType) (lhs rhs : Scalar) : Except Fault Scalar :=
  match dtype.category with
  | .float => onFloats (fun a b => truth (kind.floatPredicate.holds a b)) lhs rhs
  | .int | .fixed => onInts (compareInts (kind.intPredicate dtype.isUnsigned) dtype.width) lhs rhs

/-- A choice by a condition. -/
def select (condition thenValue elseValue : Scalar) : Except Fault Scalar :=
  match condition with
  | .int value => .ok (if value ≠ 0 then thenValue else elseValue)
  | .float _ => .error .meaningless

/-- A bit of an integer of a type. -/
def getBit (dtype : DType) (value position : Scalar) : Except Fault Scalar :=
  onInts (fun value position => .int (Arithmetic.bit value position dtype.width)) value position

/-! ## Accesses -/

/-- Values of loop variables as words. -/
def words (env : Env) (refs : List LoopRef) : Except Fault (List Int64) :=
  refs.mapM fun ref =>
    match env ref.id with
    | some value => .ok (Int64.ofInt value)
    | none => .error .meaningless

/-- The values of a map on words, dimensions first. -/
def evalMap (map : AffineMap) (words : List Int64) : Except Fault (List Int64) := do
  checked (map.overflows (words.take map.dims) (words.drop map.dims))
  match map.eval (words.take map.dims) (words.drop map.dims) with
  | some tuple => .ok tuple
  | none => .error .divisionByZero

theorem evalMap_ne_meaningless (map : AffineMap) (words : List Int64) :
    evalMap map words ≠ .error .meaningless := by
  unfold evalMap checked
  cases map.overflows (words.take map.dims) (words.drop map.dims) <;>
    cases map.eval (words.take map.dims) (words.drop map.dims) <;> nofun

/-- The index tuple of an access. -/
def indices (env : Env) (exprs : List Expr) : Except Fault (List Int64) :=
  match Extraction.access exprs [] with
  | .error _ _ => .error .meaningless
  | .ok map refs => do
    let words ← words env refs
    evalMap map words

/-- The element of a buffer at an index tuple. -/
def read (buffer : Buffer) (tuple : List Int64) : Except Fault Scalar :=
  match buffer.get? tuple with
  | some scalar => .ok scalar
  | none => .error (.outOfBounds tuple buffer.shape)

/-- The buffer with another element at an index tuple. -/
def write (buffer : Buffer) (tuple : List Int64) (scalar : Scalar) : Except Fault Buffer :=
  match Buffer.offset? buffer.shape tuple with
  | some offset => .ok (buffer.put offset scalar)
  | none => .error (.outOfBounds tuple buffer.shape)

/-- The contents of a tensor. -/
def contents (memory : Memory) (tensor : Tensor) : Except Fault Buffer :=
  match memory tensor.id with
  | some buffer => .ok buffer
  | none => .error .meaningless

/-- The element of a tensor that an access reads. -/
def load (env : Env) (memory : Memory) (tensor : Tensor) (exprs : List Expr) :
    Except Fault Scalar := do
  let tuple ← indices env exprs
  let buffer ← contents memory tensor
  read buffer tuple

end Meaning

namespace Expr

/-! ## Expressions -/

/-- No reduction, store or call. -/
def isFlat : Expr → Bool
  | .constant .. | .loopVar .. | .axis .. | .load .. => true
  | .unary _ _ _ operand | .cast _ _ operand => operand.isFlat
  | .binary _ _ _ lhs rhs | .compare _ _ lhs rhs | .getBit _ lhs rhs => lhs.isFlat && rhs.isFlat
  | .select _ _ condition thenValue elseValue =>
    condition.isFlat && thenValue.isFlat && elseValue.isFlat
  | .store .. | .call .. | .reduce .. => false

/-- The value of an expression without reductions, stores and calls. -/
def value (env : Env) (memory : Memory) : Expr → Except Fault Scalar
  | .constant _ dtype literal => Meaning.constant dtype (literal.toAttribute dtype)
  | .loopVar id _ | .axis id _ _ _ =>
    match env id with
    | some value => .ok (.int value)
    | none => .error .meaningless
  | .unary _ dtype kind operand => do
    let x ← operand.value env memory
    Meaning.unary kind.lower dtype x
  | .binary _ dtype kind lhs rhs => do
    let a ← lhs.value env memory
    let b ← rhs.value env memory
    Meaning.binary kind dtype a b
  | .compare _ kind lhs rhs => do
    let a ← lhs.value env memory
    let b ← rhs.value env memory
    match lhs.dtype? with
    | some dtype => Meaning.compare kind dtype a b
    | none => .error .meaningless
  | .cast _ dtype source => do
    let x ← source.value env memory
    match source.dtype? with
    | some sourceType => .ok (x.convert sourceType dtype)
    | none => .error .meaningless
  | .load _ tensor indices => Meaning.load env memory tensor indices
  | .select _ _ condition thenValue elseValue => do
    let c ← condition.value env memory
    let t ← thenValue.value env memory
    let e ← elseValue.value env memory
    Meaning.select c t e
  | .getBit _ value bit => do
    let v ← value.value env memory
    let b ← bit.value env memory
    match value.dtype? with
    | some dtype => Meaning.getBit dtype v b
    | none => .error .meaningless
  | .store .. | .call .. | .reduce .. => .error .meaningless

end Expr

/-! ## More loop variables

A value that was found stays when further loop variables get a number: all
operands are evaluated, so an expression with a value depends on the loop
variables that have one. -/

namespace Env

/-- Another loop variable has a number. -/
def set (env : Env) (id : NodeId) (number : Int) : Env :=
  fun other => if other = id then some number else env other

/-- The loop variables of `env` have the same numbers in `wider`. -/
def Le (env wider : Env) : Prop := ∀ id number, env id = some number → wider id = some number

theorem le_set {env : Env} {id : NodeId} (free : env id = none) (number : Int) :
    env.Le (env.set id number) := by
  intro other known found
  have different : other ≠ id := by
    rintro rfl
    rw [free] at found
    cases found
  rw [set, if_neg different]
  exact found

end Env

section Wider

variable {env wider : Env} {memory : Memory} (le : env.Le wider)
include le

theorem Meaning.words_mono {refs : List LoopRef} {found : List Int64}
    (known : words env refs = .ok found) : words wider refs = .ok found := by
  induction refs generalizing found with
  | nil => exact known
  | cons ref refs ih =>
      unfold words at known ih ⊢
      rw [List.mapM_cons] at known ⊢
      obtain ⟨word, first, known⟩ := Except.bind_eq_ok known
      obtain ⟨rest, others, same⟩ := Except.bind_eq_ok known
      rw [ih others]
      cases looked : env ref.id with
      | none =>
          rw [looked] at first
          cases first
      | some number =>
          rw [looked] at first
          rw [le ref.id number looked, first]
          exact same

theorem Meaning.load_mono {tensor : Tensor} {exprs : List Expr} {scalar : Scalar}
    (known : load env memory tensor exprs = .ok scalar) :
    load wider memory tensor exprs = .ok scalar := by
  obtain ⟨tuple, read, rest⟩ := Except.bind_eq_ok known
  have same : indices wider exprs = .ok tuple := by
    unfold indices at read ⊢
    cases access : Extraction.access exprs [] with
    | error error refs =>
        rw [access] at read
        cases read
    | ok map refs =>
        rw [access] at read
        obtain ⟨found, evaluated, last⟩ := Except.bind_eq_ok read
        simp only [words_mono le evaluated]
        exact last
  rw [load, same]
  exact rest

theorem Expr.value_mono : ∀ (expr : Expr) {scalar : Scalar},
    expr.value env memory = .ok scalar → expr.value wider memory = .ok scalar
  | .constant .., scalar, known => known
  | .loopVar id name, scalar, known | .axis id name _ _, scalar, known => by
      simp only [value] at known ⊢
      cases looked : env id with
      | none =>
          rw [looked] at known
          cases known
      | some number =>
          rw [looked] at known
          rw [le id number looked]
          exact known
  | .unary id dtype kind operand, scalar, known => by
      obtain ⟨x, found, rest⟩ := Except.bind_eq_ok known
      rw [value, operand.value_mono found]
      exact rest
  | .binary id dtype kind lhs rhs, scalar, known => by
      obtain ⟨a, left, known⟩ := Except.bind_eq_ok known
      obtain ⟨b, right, rest⟩ := Except.bind_eq_ok known
      rw [value, lhs.value_mono left, rhs.value_mono right]
      exact rest
  | .compare id kind lhs rhs, scalar, known => by
      obtain ⟨a, left, known⟩ := Except.bind_eq_ok known
      obtain ⟨b, right, rest⟩ := Except.bind_eq_ok known
      rw [value, lhs.value_mono left, rhs.value_mono right]
      exact rest
  | .cast id dtype source, scalar, known => by
      obtain ⟨x, found, rest⟩ := Except.bind_eq_ok known
      rw [value, source.value_mono found]
      exact rest
  | .load id tensor exprs, scalar, known => Meaning.load_mono le known
  | .select id dtype condition thenValue elseValue, scalar, known => by
      obtain ⟨c, first, known⟩ := Except.bind_eq_ok known
      obtain ⟨t, second, known⟩ := Except.bind_eq_ok known
      obtain ⟨e, third, rest⟩ := Except.bind_eq_ok known
      rw [value, condition.value_mono first, thenValue.value_mono second,
        elseValue.value_mono third]
      exact rest
  | .getBit id source bit, scalar, known => by
      obtain ⟨v, left, known⟩ := Except.bind_eq_ok known
      obtain ⟨b, right, rest⟩ := Except.bind_eq_ok known
      rw [value, source.value_mono left, bit.value_mono right]
      exact rest

end Wider

end AffineKernel
