import AffineKernel.Proofs.Build.Pool
import AffineKernel.Proofs.Semantics.Control
import AffineKernel.Proofs.Semantics.Reduction

/-!
# Exact values of index expressions

An index expression is built from loop variables, integer literals, casts, sums,
differences, products, quotients and remainders. Over integers without bounds it
has an exact value; `Expr.exactValue?` computes it, and gives none where a node
leaves the range of its type, where a divisor is zero, and where a truncating
quotient or remainder has a negative dividend or a negative divisor.

Where the exact value exists it is the value of the expression
(`Expr.value_of_exactValue`): no operation on the way wraps. The one-bit integer
needs care, since it holds zero and one and is yet divided as a signed number,
by which one becomes minus one; quotients and remainders of zero and one by one
come out right all the same.
-/

set_option autoImplicit false

namespace AffineKernel

/-! ## Ranges -/

/-- A signed integer of at least one bit, or `index`. -/
def DType.isSignedInteger : DType → Bool
  | .int width => 0 < width
  | .index => true
  | _ => false

/-- A number, if it is in the range of a type of signed integers. -/
def DType.hold? (dtype : DType) (number : Int) : Option Int := do
  let low ← dtype.rawMin?
  let high ← dtype.rawMax?
  if dtype.isSignedInteger && (low ≤ number && number ≤ high) then some number else none

/-- The exact value of an operator. A truncating quotient or remainder is taken of a dividend that
is not negative, by a positive divisor. -/
def BinaryKind.exactValue? (kind : BinaryKind) (a b : Int) : Option Int :=
  match kind with
  | .add => some (a + b)
  | .sub => some (a - b)
  | .mul => some (a * b)
  | .floorDiv => if b = 0 then none else some (a.fdiv b)
  | .div => if 0 ≤ a ∧ 0 < b then some (a.tdiv b) else none
  | .rem => if 0 ≤ a ∧ 0 < b then some (a.tmod b) else none
  | _ => none

/-- The exact value of an index expression, if every node is in the range of its type. -/
def Expr.exactValue? (assignment : NodeId → Int64) : Expr → Option Int
  | .loopVar id _ | .axis id _ _ _ => some (assignment id).toInt
  | .constant _ dtype (.int value) => dtype.hold? value.toInt
  | .cast _ dtype source => do
    let number ← source.exactValue? assignment
    dtype.hold? number
  | .binary _ dtype kind lhs rhs => do
    let a ← lhs.exactValue? assignment
    let b ← rhs.exactValue? assignment
    let number ← kind.exactValue? a b
    dtype.hold? number
  | _ => none

/-- A number in the range of a type of signed integers. -/
structure DType.Contains (dtype : DType) (number : Int) : Prop where
  signed : dtype.isSignedInteger = true
  fits : (Scalar.int number).Fits dtype
  width : 0 < dtype.width ∧ dtype.width ≤ 64

namespace DType

variable {dtype : DType} {number result : Int}

theorem isSignedInteger_cases (signed : dtype.isSignedInteger = true) :
    (∃ width, dtype = .int width ∧ 0 < width) ∨ dtype = .index := by
  cases dtype with
  | int width => exact .inl ⟨width, rfl, of_decide_eq_true signed⟩
  | index => exact .inr rfl
  | _ => cases signed

theorem hold?_eq_some (held : dtype.hold? number = some result) :
    result = number ∧ dtype.Contains number := by
  simp only [hold?, Option.bind_eq_bind, Option.bind_eq_some_iff] at held
  obtain ⟨low, least, high, greatest, held⟩ := held
  split at held
  · rename_i inside
    obtain ⟨signed, above, below⟩ :
        dtype.isSignedInteger = true ∧ low ≤ number ∧ number ≤ high := by simpa using inside
    have small : dtype.width ≤ 64 := by
      refine Nat.le_of_not_lt fun wide => ?_
      have unbounded : dtype.rawMin? = none := if_pos wide
      rw [unbounded] at least
      cases least
    have positive : 0 < dtype.width := by
      rcases isSignedInteger_cases signed with ⟨width, rfl, positive⟩ | rfl
      · exact positive
      · decide
    have raw : dtype.isFloat = false := by
      rcases isSignedInteger_cases signed with ⟨width, rfl, -⟩ | rfl <;> rfl
    obtain ⟨first, last, lowest, highest, range⟩ := raw_range raw positive small
    obtain rfl : first = low := Option.some.inj (lowest.symm.trans least)
    obtain rfl : last = high := Option.some.inj (highest.symm.trans greatest)
    exact ⟨(Option.some.inj held).symm, signed, (range number).mpr ⟨above, below⟩, positive, small⟩
  · cases held

namespace Contains

theorem category (contains : dtype.Contains number) : dtype.category = .int := by
  rcases isSignedInteger_cases contains.signed with ⟨width, rfl, -⟩ | rfl <;> rfl

theorem isUnsigned (contains : dtype.Contains number) : dtype.isUnsigned = false := by
  rcases isSignedInteger_cases contains.signed with ⟨width, rfl, -⟩ | rfl <;> rfl

theorem fraction (contains : dtype.Contains number) : dtype.fraction = 0 := by
  rcases isSignedInteger_cases contains.signed with ⟨width, rfl, -⟩ | rfl <;> rfl

/-- A number of one bit is zero or one. -/
theorem bit (contains : dtype.Contains number) (narrow : dtype.width = 1) :
    dtype = .bool ∧ (number = 0 ∨ number = 1) := by
  rcases isSignedInteger_cases contains.signed with ⟨width, rfl, -⟩ | rfl
  · obtain rfl : width = 1 := narrow
    have range : 0 ≤ number ∧ number ≤ 2 ^ 1 - 1 := unsigned_eq_iff.mp contains.fits.2
    refine ⟨rfl, ?_⟩
    omega
  · cases narrow

/-- A type of more than one bit keeps the sign. -/
theorem normalize_eq (contains : dtype.Contains number) (wide : dtype.width ≠ 1) (value : Int) :
    normalize value dtype = AffineKernel.signed value dtype.width := by
  rcases isSignedInteger_cases contains.signed with ⟨width, rfl, -⟩ | rfl
  · exact normalize_int wide value
  · rfl

/-- A number of more than one bit is read back with its sign. -/
theorem signed_eq (contains : dtype.Contains number) (wide : dtype.width ≠ 1) :
    AffineKernel.signed number dtype.width = number := by
  rw [← contains.normalize_eq wide]
  exact contains.fits.2

/-- A number in the range of a type is in the range of `index`. -/
theorem index (contains : dtype.Contains number) : DType.index.Contains number := by
  refine ⟨rfl, fits_index_iff.mpr ?_, by decide, by decide⟩
  by_cases narrow : dtype.width = 1
  · obtain ⟨-, rfl | rfl⟩ := contains.bit narrow <;> decide
  · have range := (signed_eq_iff contains.width.1).mp (contains.signed_eq narrow)
    have exponent : dtype.width - 1 ≤ 63 := by
      have small := contains.width.2
      omega
    have power : (2 : Int) ^ (dtype.width - 1) ≤ 2 ^ 63 := by
      exact_mod_cast Nat.pow_le_pow_right (by decide) exponent
    omega

end Contains

end DType

/-! ## Operators -/

variable {dtype : DType} {kind : BinaryKind} {a b number : Int}

/-- Quotients and remainders do not depend on the sign of a number of one bit. -/
theorem Arithmetic.divide_exact {op : Int → Int → Int}
    (left : dtype.Contains a) (right : dtype.Contains b) (nonzero : b ≠ 0)
    (bits : ∀ first, first = 0 ∨ first = 1 → op (signed first 1) (-1) = op first 1) :
    divide op (signed a dtype.width) (signed b dtype.width) = .ok (op a b) := by
  by_cases narrow : dtype.width = 1
  · obtain ⟨rfl, isBit⟩ := left.bit narrow
    obtain rfl : b = 1 := by
      rcases (right.bit rfl).2 with zero | one
      · exact absurd zero nonzero
      · exact one
    exact congrArg Except.ok (bits a isBit)
  · rw [left.signed_eq narrow, right.signed_eq narrow]
    exact if_neg nonzero

/-- Every type of signed integers has the operations of `index`. -/
theorem BinaryKind.lower_signed (contains : dtype.Contains number) {op : OpKind}
    (known : kind.lower .index = .ok op) : kind.lower dtype = .ok op := by
  cases kind <;> simp only [lower, contains.category, contains.isUnsigned] <;> exact known

/-- A number of a type that meets another one is in the range of that one too. -/
theorem DType.Contains.of_meets {right : DType} (contains : right.Contains b)
    (left : dtype.Contains a) (meets : dtype.Meets right) : dtype.Contains b := by
  refine ⟨left.signed, ⟨left.fits.1, ?_⟩, left.width⟩
  have same := meets.width
  by_cases narrow : dtype.width = 1
  · obtain ⟨rfl, -⟩ := left.bit narrow
    obtain ⟨rfl, -⟩ := contains.bit (same.trans narrow)
    exact contains.fits.2
  · have wide : right.width ≠ 1 := same ▸ narrow
    have read := contains.signed_eq wide
    rw [same] at read
    rw [left.normalize_eq narrow, read]

namespace Meaning

/-- An operation on integers whose result is in the range of its type. -/
theorem binary_of_onInts (op : OpKind) (lowers : kind.lower dtype = .ok op)
    (computes : Arithmetic.onInts op dtype a b = .ok number) (result : dtype.Contains number) :
    binary kind dtype (.int a) (.int b) = .ok (.int number) := by
  have plain : ¬ (kind = .floorDiv ∧ dtype.isFloat = true) := by
    rintro ⟨-, float⟩
    rw [result.fits.1] at float
    cases float
  have scalar : arithmetic op dtype (.int a) (.int b) = .ok (.int number) := by
    simp only [arithmetic, Arithmetic.binary, computes, Except.map, result.fits.2]
  simp only [binary, lowers, scalar, if_neg plain]
  rfl

/-- The machine computes the exact value of an operator. -/
theorem binary_exact (left : dtype.Contains a) (right : dtype.Contains b)
    (valued : kind.exactValue? a b = some number) (result : dtype.Contains number) :
    binary kind dtype (.int a) (.int b) = .ok (.int number) := by
  cases kind with
  | add =>
      cases valued
      exact binary_of_onInts .addI (BinaryKind.lower_signed left rfl) rfl result
  | sub =>
      cases valued
      exact binary_of_onInts .subI (BinaryKind.lower_signed left rfl) rfl result
  | mul =>
      cases valued
      exact binary_of_onInts .mulI (BinaryKind.lower_signed left rfl) rfl result
  | floorDiv =>
      simp only [BinaryKind.exactValue?] at valued
      split at valued
      · cases valued
      · rename_i nonzero
        cases valued
        refine binary_of_onInts .floorDivSI (BinaryKind.lower_signed left rfl) ?_ result
        exact Arithmetic.divide_exact left right nonzero (by rintro _ (rfl | rfl) <;> decide)
  | div =>
      simp only [BinaryKind.exactValue?] at valued
      split at valued
      · rename_i signs
        cases valued
        refine binary_of_onInts .divSI (BinaryKind.lower_signed left rfl) ?_ result
        exact Arithmetic.divide_exact left right (Int.ne_of_gt signs.2)
          (by rintro _ (rfl | rfl) <;> decide)
      · cases valued
  | rem =>
      simp only [BinaryKind.exactValue?] at valued
      split at valued
      · rename_i signs
        cases valued
        refine binary_of_onInts .remSI (BinaryKind.lower_signed left rfl) ?_ result
        exact Arithmetic.divide_exact left right (Int.ne_of_gt signs.2)
          (by rintro _ (rfl | rfl) <;> decide)
      · cases valued
  | shl | shr | and | or | xor => cases valued

end Meaning

/-! ## Expressions -/

namespace Expr

variable {assignment : NodeId → Int64}

/-- The numbers of an assignment. -/
def numbers (assignment : NodeId → Int64) : Env := fun id => some (assignment id).toInt

theorem contains_word (word : Int64) : DType.index.Contains word.toInt :=
  ⟨rfl, fits_index_iff.mpr ⟨word.le_toInt, word.toInt_lt⟩, by decide, by decide⟩

/-- The type of an expression with an exact value is one of signed integers, and the value is in its
range. -/
theorem contains_of_exactValue : ∀ {expr : Expr}, expr.exactValue? assignment = some number →
    expr.dtype? = some dtype → dtype.Contains number
  | .loopVar id name, valued, typed | .axis id name _ _, valued, typed => by
      cases valued
      cases typed
      exact contains_word _
  | .constant id _ (.int value), valued, typed => by
      cases typed
      obtain ⟨rfl, contains⟩ := DType.hold?_eq_some valued
      exact contains
  | .constant id _ (.float value), valued, _ => by cases valued
  | .cast id _ source, valued, typed => by
      cases typed
      obtain ⟨value, -, held⟩ := Option.bind_eq_some_iff.mp valued
      obtain ⟨rfl, contains⟩ := DType.hold?_eq_some held
      exact contains
  | .binary id _ kind lhs rhs, valued, typed => by
      cases typed
      obtain ⟨a, -, valued⟩ := Option.bind_eq_some_iff.mp valued
      obtain ⟨b, -, valued⟩ := Option.bind_eq_some_iff.mp valued
      obtain ⟨value, -, held⟩ := Option.bind_eq_some_iff.mp valued
      obtain ⟨rfl, contains⟩ := DType.hold?_eq_some held
      exact contains
  | .unary .., valued, _ | .compare .., valued, _ | .load .., valued, _ | .store .., valued, _
  | .select .., valued, _ | .call .., valued, _ | .getBit .., valued, _
  | .reduce .., valued, _ => by cases valued

/-- An exact value is in the range of `index`. -/
theorem index_contains_of_exactValue {expr : Expr} (valued : expr.exactValue? assignment = some number) :
    DType.index.Contains number := by
  have typed : ∃ dtype, expr.dtype? = some dtype := by
    cases expr with
    | loopVar | axis | constant | cast | binary => exact ⟨_, rfl⟩
    | unary | compare | load | store | select | call | getBit | reduce => cases valued
  obtain ⟨dtype, type⟩ := typed
  exact (contains_of_exactValue valued type).index

theorem isFlat_of_exactValue : ∀ {expr : Expr} {number : Int}, expr.exactValue? assignment = some number →
    expr.isFlat = true
  | .loopVar .., _, _ | .axis .., _, _ | .constant .., _, _ => rfl
  | .cast id dtype source, _, valued => by
      obtain ⟨value, inner, -⟩ := Option.bind_eq_some_iff.mp valued
      rw [isFlat, isFlat_of_exactValue inner]
  | .binary id dtype kind lhs rhs, _, valued => by
      obtain ⟨a, left, valued⟩ := Option.bind_eq_some_iff.mp valued
      obtain ⟨b, right, -⟩ := Option.bind_eq_some_iff.mp valued
      rw [isFlat, isFlat_of_exactValue left, isFlat_of_exactValue right]
      rfl
  | .unary .., _, valued | .compare .., _, valued | .load .., _, valued | .store .., _, valued
  | .select .., _, valued | .call .., _, valued | .getBit .., _, valued
  | .reduce .., _, valued => by cases valued

/-- A conversion between types of signed integers keeps a number that is in the range of both. -/
theorem convert_exact {source : DType} (before : source.Contains number)
    (after : dtype.Contains number) :
    (Scalar.int number).convert source dtype = .int number := by
  simp only [Scalar.convert, Scalar.ofRaw, before.category, after.category, before.fraction,
    after.fraction, rescale, Nat.le_refl, if_true, Nat.sub_self, Int.pow_zero, Int.mul_one,
    after.fits.2]

/-- The exact value of an expression of formed nodes is its value. -/
theorem value_of_exactValue {nodes : Expr → Prop} (memory : Memory)
    (operands : ∀ {expr : Expr}, nodes expr → ∀ operand ∈ expr.operands, nodes operand)
    (formed : ∀ {expr : Expr}, nodes expr → expr.Formed) :
    ∀ {expr : Expr} {number : Int}, nodes expr → expr.exactValue? assignment = some number →
      expr.value (numbers assignment) memory = .ok (.int number)
  | .loopVar id name, number, _, valued | .axis id name _ _, number, _, valued => by
      cases valued
      rfl
  | .constant id dtype (.int value), number, _, valued => by
      obtain ⟨rfl, contains⟩ := DType.hold?_eq_some valued
      have literal : Literal.toAttribute (.int value) dtype = .int value dtype := by
        simp only [Literal.toAttribute, contains.category]
      rw [Expr.value, literal, Meaning.constant_int contains.fits.1, contains.fits.2]
  | .constant id dtype (.float value), _, _, valued => by cases valued
  | .cast id dtype source, number, member, valued => by
      obtain ⟨value, inner, held⟩ := Option.bind_eq_some_iff.mp valued
      obtain ⟨rfl, contains⟩ := DType.hold?_eq_some held
      obtain ⟨sourceType, typed, -⟩ := formed member
      have before := contains_of_exactValue inner typed
      have below := operands member source (by simp [Expr.operands])
      have value := value_of_exactValue memory operands formed below inner
      simp only [Expr.value, value, typed]
      exact congrArg Except.ok (convert_exact before contains)
  | .binary id dtype kind lhs rhs, number, member, valued => by
      obtain ⟨a, left, valued⟩ := Option.bind_eq_some_iff.mp valued
      obtain ⟨b, right, valued⟩ := Option.bind_eq_some_iff.mp valued
      obtain ⟨value, computed, held⟩ := Option.bind_eq_some_iff.mp valued
      obtain ⟨rfl, result⟩ := DType.hold?_eq_some held
      obtain ⟨typeLeft, -, rightType, typeRight, meets⟩ := formed member
      have containsLeft := contains_of_exactValue left typeLeft
      have containsRight := contains_of_exactValue right typeRight
      have first := value_of_exactValue memory operands formed
        (operands member lhs (by simp [Expr.operands])) left
      have second := value_of_exactValue memory operands formed
        (operands member rhs (by simp [Expr.operands])) right
      have both := Meaning.binary_exact containsLeft
        (containsRight.of_meets containsLeft meets) computed result
      rw [Expr.value, first, second]
      exact both
  | .unary .., _, _, valued | .compare .., _, _, valued | .load .., _, _, valued
  | .store .., _, _, valued | .select .., _, _, valued | .call .., _, _, valued
  | .getBit .., _, _, valued | .reduce .., _, _, valued => by cases valued

end Expr

end AffineKernel
