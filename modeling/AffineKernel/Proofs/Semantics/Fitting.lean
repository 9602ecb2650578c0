import AffineKernel.Proofs.Semantics.Meaning

/-!
# Values that fit their types

A scalar *fits* a type when it is a float exactly if the type is one, and
normalized otherwise. The meaning of an operator on operands that fit their
types fits its own type, or it is a division by zero, an access out of bounds or
an overflow; it is never meaningless. `Fault.Proper` says this of the meaning of a
computation.
-/

set_option autoImplicit false

namespace AffineKernel

/-- A float of a float type, or a normalized integer of another type. -/
def Scalar.Fits (dtype : DType) : Scalar → Prop
  | .int value => dtype.isFloat = false ∧ normalize value dtype = value
  | .float _ => dtype.isFloat = true

/-- A scalar that fits a type, or a fault that a well-formed computation can end in. -/
def Proper (dtype : DType) : Except Fault Scalar → Prop
  | .ok scalar => scalar.Fits dtype
  | .error fault => fault ≠ .meaningless

theorem Proper.fits {dtype : DType} {outcome : Except Fault Scalar} {scalar : Scalar}
    (proper : Proper dtype outcome) (known : outcome = .ok scalar) : scalar.Fits dtype := by
  rw [known] at proper
  exact proper

/-! ## Normalized integers -/

theorem signed_signed (value : Int) (width : Nat) :
    signed (signed value width) width = signed value width := by
  simp [signed]

theorem unsigned_unsigned (value : Int) (width : Nat) :
    unsigned (unsigned value width) width = unsigned value width := by
  simp [unsigned]

/-- A normalized integer stays as it is. -/
theorem normalize_normalize (value : Int) (dtype : DType) :
    normalize (normalize value dtype) dtype = normalize value dtype := by
  unfold normalize
  split
  · exact unsigned_unsigned _ _
  · exact signed_signed _ _

theorem isFloat_iff (dtype : DType) : dtype.isFloat = true ↔ dtype.category = .float := by
  cases dtype <;> simp [DType.isFloat, DType.category]

namespace Scalar

variable {dtype : DType}

theorem fits_normalize (value : Int) (raw : dtype.category ≠ .float) :
    (Scalar.int (normalize value dtype)).Fits dtype := by
  refine ⟨?_, normalize_normalize value dtype⟩
  rw [← Bool.not_eq_true, isFloat_iff]
  exact raw

theorem fits_float (x : Float) (float : dtype.category = .float) : (Scalar.float x).Fits dtype :=
  (isFloat_iff dtype).mpr float

/-- A scalar of a float type is a float. -/
theorem Fits.exists_float {scalar : Scalar} (fits : scalar.Fits dtype)
    (float : dtype.category = .float) : ∃ x, scalar = .float x := by
  cases scalar with
  | float x => exact ⟨x, rfl⟩
  | int value =>
      have raw := fits.1
      rw [(isFloat_iff dtype).mpr float] at raw
      cases raw

/-- A scalar of another type is an integer. -/
theorem Fits.exists_int {scalar : Scalar} (fits : scalar.Fits dtype)
    (raw : dtype.category ≠ .float) : ∃ value, scalar = .int value := by
  cases scalar with
  | int value => exact ⟨value, rfl⟩
  | float x => exact absurd ((isFloat_iff dtype).mp fits) raw

theorem ofFloat_fits (x : Float) (dtype : DType) : (ofFloat x dtype).Fits dtype := by
  unfold ofFloat
  split
  · rename_i float
    exact fits_float _ float
  · rename_i raw
    exact fits_normalize _ (by simp [raw])
  · rename_i raw
    exact fits_normalize _ (by simp [raw])

theorem ofRaw_fits (value : Int) (source dtype : DType) : (ofRaw value source dtype).Fits dtype := by
  unfold ofRaw
  split
  · exact ofFloat_fits _ _
  · rename_i float _
    exact fits_float _ float
  · rename_i raw
    exact fits_normalize _ raw

/-- A converted scalar fits the type it was converted to. -/
theorem convert_fits (scalar : Scalar) (source dtype : DType) :
    (scalar.convert source dtype).Fits dtype := by
  cases scalar with
  | int value => exact ofRaw_fits value source dtype
  | float x => exact ofFloat_fits x dtype

end Scalar

/-! ## Primitives -/

namespace Meaning

variable {dtype : DType} {lhs rhs : Scalar}

theorem constant_proper (literal : Literal) (dtype : DType) :
    Proper dtype (constant dtype (literal.toAttribute dtype)) := by
  cases literal with
  | int value =>
      cases sort : dtype.category <;> simp only [Literal.toAttribute, sort, constant] <;>
        exact Scalar.convert_fits _ _ _
  | float x =>
      cases sort : dtype.category <;> simp only [Literal.toAttribute, sort, constant] <;>
        exact Scalar.convert_fits _ _ _

/-- A float function of a float. -/
theorem unary_proper {kind : OpKind} {function : Float → Float} {operand : Scalar}
    {operandType : DType} (known : kind.floatFunction? = some function)
    (fits : operand.Fits operandType) (operandFloat : operandType.category = .float)
    (float : dtype.category = .float) : Proper dtype (unary kind dtype operand) := by
  obtain ⟨x, rfl⟩ := fits.exists_float operandFloat
  simp only [unary, known]
  exact Scalar.fits_float (roundFloat (function x) dtype) float

theorem lower_floatFunction (kind : UnaryKind) : ∃ function, kind.lower.floatFunction? = some function := by
  cases kind <;> exact ⟨_, rfl⟩

/-- An operation of floats on floats has a result. -/
theorem arithmetic_float {kind : BinaryKind} {op : OpKind} (lowered : kind.lower dtype = .ok op)
    (float : dtype.category = .float) (a b : Float) :
    ∃ x, arithmetic op dtype (.float a) (.float b) = .ok (.float x) := by
  cases kind <;> simp only [BinaryKind.lower, float] at lowered <;> cases lowered <;>
    exact ⟨_, rfl⟩

theorem divide_supported (op : Int → Int → Int) (a b : Int) :
    Arithmetic.divide op a b ≠ .error .unsupported := by
  unfold Arithmetic.divide
  split <;> simp

theorem divideRegister_supported (a b : Int) :
    Arithmetic.divideRegister a b ≠ .error .unsupported := by
  unfold Arithmetic.divideRegister
  split
  · simp
  · split <;> simp

/-- The operation of an operator is one that integers have. -/
theorem onInts_supported {kind : BinaryKind} {op : OpKind} (lowered : kind.lower dtype = .ok op)
    (raw : dtype.category ≠ .float) (a b : Int) :
    Arithmetic.onInts op dtype a b ≠ .error .unsupported := by
  cases dtype <;> simp only [DType.category, ne_eq, not_true] at raw <;>
    cases kind <;> simp only [BinaryKind.lower, DType.category, DType.isUnsigned] at lowered <;>
    cases lowered <;> simp [Arithmetic.onInts, divide_supported, divideRegister_supported]

/-- An operation of integers on integers has a normalized result, or it divides by zero, or it
overflows. -/
theorem arithmetic_int {kind : BinaryKind} {op : OpKind} (lowered : kind.lower dtype = .ok op)
    (raw : dtype.category ≠ .float) (a b : Int) :
    (∃ value, arithmetic op dtype (.int a) (.int b) = .ok (.int (normalize value dtype))) ∨
      ∃ fault ≠ .meaningless, arithmetic op dtype (.int a) (.int b) = .error fault := by
  have supported := onInts_supported lowered raw a b
  simp only [arithmetic, Arithmetic.binary]
  cases result : Arithmetic.onInts op dtype a b with
  | ok value => exact .inl ⟨value, rfl⟩
  | error error =>
      cases error with
      | unsupported => exact absurd result supported
      | divisionByZero => exact .inr ⟨.divisionByZero, nofun, rfl⟩
      | overflow => exact .inr ⟨.overflow, nofun, rfl⟩

/-- The operation of an operator on operands of one category. -/
theorem arithmetic_proper {kind : BinaryKind} {op : OpKind} {rhsType : DType}
    (lowered : kind.lower dtype = .ok op) (left : lhs.Fits dtype) (right : rhs.Fits rhsType)
    (same : rhsType.category = dtype.category) : Proper dtype (arithmetic op dtype lhs rhs) := by
  by_cases float : dtype.category = .float
  · obtain ⟨a, rfl⟩ := left.exists_float float
    obtain ⟨b, rfl⟩ := right.exists_float (same.trans float)
    obtain ⟨x, result⟩ := arithmetic_float lowered float a b
    rw [result]
    exact Scalar.fits_float x float
  · obtain ⟨a, rfl⟩ := left.exists_int float
    obtain ⟨b, rfl⟩ := right.exists_int (same ▸ float)
    rcases arithmetic_int lowered float a b with ⟨value, result⟩ | ⟨fault, sort, result⟩
    · rw [result]
      exact Scalar.fits_normalize value float
    · rw [result]
      exact sort

/-- An operator on operands of one category. -/
theorem binary_proper {kind : BinaryKind} {op : OpKind} {rhsType : DType}
    (lowered : kind.lower dtype = .ok op) (left : lhs.Fits dtype) (right : rhs.Fits rhsType)
    (same : rhsType.category = dtype.category) : Proper dtype (binary kind dtype lhs rhs) := by
  simp only [binary, lowered]
  by_cases float : dtype.category = .float
  · obtain ⟨a, rfl⟩ := left.exists_float float
    obtain ⟨b, rfl⟩ := right.exists_float (same.trans float)
    obtain ⟨x, result⟩ := arithmetic_float lowered float a b
    rw [result]
    change Proper dtype (if _ then _ else _)
    split
    · exact unary_proper rfl (Scalar.fits_float x float) float float
    · exact Scalar.fits_float x float
  · have notFloat : dtype.isFloat ≠ true := fun yes => float ((isFloat_iff dtype).mp yes)
    obtain ⟨a, rfl⟩ := left.exists_int float
    obtain ⟨b, rfl⟩ := right.exists_int (same ▸ float)
    rcases arithmetic_int lowered float a b with ⟨value, result⟩ | ⟨fault, sort, result⟩
    · rw [result]
      change Proper dtype (if _ then _ else _)
      rw [if_neg (fun both => notFloat both.2)]
      exact Scalar.fits_normalize value float
    · rw [result]
      exact sort

theorem truth_fits (holds : Bool) : (truth holds).Fits .bool := by
  cases holds <;> exact ⟨rfl, by decide⟩

/-- A comparison of operands of one category. -/
theorem compare_proper {kind : Comparison} {rhsType : DType} (left : lhs.Fits dtype)
    (right : rhs.Fits rhsType) (same : rhsType.category = dtype.category) :
    Proper .bool (compare kind dtype lhs rhs) := by
  by_cases float : dtype.category = .float
  · obtain ⟨a, rfl⟩ := left.exists_float float
    obtain ⟨b, rfl⟩ := right.exists_float (same.trans float)
    simp only [compare, float]
    exact truth_fits _
  · obtain ⟨a, rfl⟩ := left.exists_int float
    obtain ⟨b, rfl⟩ := right.exists_int (same ▸ float)
    cases sort : dtype.category with
    | float => exact absurd sort float
    | int =>
        simp only [compare, sort]
        exact truth_fits _
    | fixed =>
        simp only [compare, sort]
        exact truth_fits _

theorem select_proper {condition : Scalar} (truth : condition.Fits .bool) (left : lhs.Fits dtype)
    (right : rhs.Fits dtype) : Proper dtype (select condition lhs rhs) := by
  obtain ⟨value, rfl⟩ := truth.exists_int (by decide)
  simp only [select]
  split
  · exact left
  · exact right

theorem bit_fits (value position : Int) (width : Nat) :
    (Scalar.int (Arithmetic.bit value position width)).Fits .bool := by
  refine ⟨rfl, ?_⟩
  simp only [Arithmetic.bit]
  split
  · simp [normalize, DType.isUnsigned, DType.isBool, unsigned, DType.width]
  · rfl

theorem getBit_proper {valueType : DType} (integer : valueType.isInt = true)
    (left : lhs.Fits valueType) (right : rhs.Fits .index) :
    Proper .bool (getBit valueType lhs rhs) := by
  have raw : valueType.category ≠ .float := by
    cases valueType <;> simp [DType.isInt, DType.category] at integer ⊢
  obtain ⟨value, rfl⟩ := left.exists_int raw
  obtain ⟨position, rfl⟩ := right.exists_int (by decide)
  exact bit_fits value position valueType.width

end Meaning

end AffineKernel
