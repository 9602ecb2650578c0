import Mathlib.Algebra.BigOperators.Fin
import AffineKernel.Proofs.Affine.Divisors

/-!
# Coefficients of affine expressions

Purity is a condition on the shape of an expression: a product has a side
without dimensions, and a divisor has none. Its meaning is a statement about the
values. An expression without dimensions has the same value at all points
(`eval_of_isSymbolic`). So a pure expression of sums and products is, for given
symbols, an offset and a multiple of each dimension, added up and wrapped to a
word (`HasCoefficients`): a sum adds the coefficients of its operands, and a
product by a number multiplies them.

Sums and products of words wrap. The coefficients are integers, and the wrapping
is done once, at the end.
-/

set_option autoImplicit false

namespace AffineKernel

namespace AffineExpr

/-- Built with sums and products only. -/
def isPolynomial : AffineExpr → Bool
  | .dim _ | .symbol _ | .constant _ => true
  | .binary op lhs rhs => !op.isDivision && (lhs.isPolynomial && rhs.isPolynomial)

/-- One more than the largest symbol that occurs. -/
def symbolCount : AffineExpr → Nat
  | .symbol position => position + 1
  | .dim _ | .constant _ => 0
  | .binary _ lhs rhs => max lhs.symbolCount rhs.symbolCount

variable {op : AffineOp} {lhs rhs expr part : AffineExpr} {dims symbols : List Int64}
  {factor value : Int64} {count : Nat}

/-! ## Expressions without dimensions -/

/-- The value of an expression without dimensions depends on the symbols alone. -/
theorem eval_of_isSymbolic (symbolic : expr.isSymbolic = true) (dims others symbols : List Int64) :
    expr.eval dims symbols = expr.eval others symbols := by
  induction expr with
  | dim position => cases symbolic
  | symbol | constant => rfl
  | binary op lhs rhs left right =>
      obtain ⟨first, second⟩ := Bool.and_eq_true_iff.mp symbolic
      rw [eval, eval, left first, right second]

theorem isPure_of_isSymbolic (symbolic : expr.isSymbolic = true) : expr.isPure = true := by
  induction expr with
  | dim | symbol | constant => rfl
  | binary op lhs rhs left right =>
      obtain ⟨first, second⟩ := Bool.and_eq_true_iff.mp symbolic
      cases op <;> simp [isPure, left first, right second, first, second]

/-! ## Divisors -/

theorem isPure_right (pure : (binary op lhs rhs).isPure = true) : rhs.isPure = true := by
  cases op with
  | add => exact (Bool.and_eq_true_iff.mp pure).2
  | mul => exact (Bool.and_eq_true_iff.mp (Bool.and_eq_true_iff.mp pure).1).2
  | mod | floorDiv | ceilDiv => exact isPure_of_isSymbolic (Bool.and_eq_true_iff.mp pure).2

/-- The operands of a pure expression are pure. -/
theorem isPure_part (pure : expr.isPure = true) (below : part ∈ expr.parts) :
    part.isPure = true := by
  induction expr with
  | dim | symbol | constant =>
      cases List.mem_singleton.mp below
      exact pure
  | binary op lhs rhs left right =>
      rcases List.mem_cons.mp below with same | strictly
      · rwa [same]
      · rcases List.mem_append.mp strictly with first | second
        · exact left (isPure_left pure) first
        · exact right (isPure_right pure) second

/-! ## Coefficients -/

/-- Over the first dimensions an expression is an offset and a multiple of each of them, wrapped. -/
def HasCoefficients (expr : AffineExpr) (symbols : List Int64) (count : Nat) : Prop :=
  ∃ (offset : Int) (coefficient : Fin count → Int), ∀ (dims : List Int64)
    (long : count ≤ dims.length),
    expr.eval dims symbols = some (Int64.ofInt
      (offset + ∑ position, coefficient position * (dims.get (position.castLE long)).toInt))

namespace HasCoefficients

/-- An expression with one value at all points has no multiples. -/
theorem of_eval (evaluates : ∀ dims, expr.eval dims symbols = some value) :
    expr.HasCoefficients symbols count := by
  refine ⟨value.toInt, 0, fun dims _ => ?_⟩
  simp [evaluates dims]

/-- A dimension is one of itself. -/
theorem dim (position : Fin count) : (AffineExpr.dim position).HasCoefficients symbols count := by
  refine ⟨0, fun other => if other = position then 1 else 0, fun dims long => ?_⟩
  have inside : (position : Nat) < dims.length := Nat.lt_of_lt_of_le position.isLt long
  simp [eval, inside]

theorem add (left : lhs.HasCoefficients symbols count) (right : rhs.HasCoefficients symbols count) :
    (binary .add lhs rhs).HasCoefficients symbols count := by
  obtain ⟨first, multiples, leftValue⟩ := left
  obtain ⟨second, others, rightValue⟩ := right
  refine ⟨first + second, fun position => multiples position + others position,
    fun dims long => eval_binary_eq_some.mpr ⟨_, _, leftValue dims long, rightValue dims long, ?_⟩⟩
  rw [AffineOp.apply, ← Int64.ofInt_add]
  simp only [add_mul, Finset.sum_add_distrib]
  rw [add_add_add_comm]

/-- A product by a number multiplies offset and coefficients. -/
theorem mul (evaluates : ∀ dims, lhs.eval dims symbols = some factor)
    (right : rhs.HasCoefficients symbols count) :
    (binary .mul lhs rhs).HasCoefficients symbols count := by
  obtain ⟨offset, multiples, rightValue⟩ := right
  refine ⟨factor.toInt * offset, fun position => factor.toInt * multiples position,
    fun dims long => eval_binary_eq_some.mpr ⟨_, _, evaluates dims, rightValue dims long, ?_⟩⟩
  rw [AffineOp.apply]
  simp only [mul_assoc, ← Finset.mul_sum, ← mul_add, Int64.ofInt_mul, Int64.ofInt_toInt]

theorem swap (commutes : op.commutes = true)
    (exchanged : (binary op rhs lhs).HasCoefficients symbols count) :
    (binary op lhs rhs).HasCoefficients symbols count := by
  obtain ⟨offset, multiples, evaluates⟩ := exchanged
  refine ⟨offset, multiples, fun dims long => ?_⟩
  obtain ⟨b, a, right, left, applied⟩ := eval_binary_eq_some.mp (evaluates dims long)
  exact eval_binary_eq_some.mpr
    ⟨a, b, left, right, (AffineOp.apply_comm commutes a b).trans applied⟩

end HasCoefficients

/-- Sums and products have a value where dimensions and symbols have one. -/
theorem exists_eval (polynomial : expr.isPolynomial = true)
    (dimsLong : expr.dimCount ≤ dims.length) (symbolsLong : expr.symbolCount ≤ symbols.length) :
    ∃ word, expr.eval dims symbols = some word := by
  induction expr with
  | dim position => exact ⟨_, List.getElem?_eq_getElem dimsLong⟩
  | symbol position => exact ⟨_, List.getElem?_eq_getElem symbolsLong⟩
  | constant word => exact ⟨word, rfl⟩
  | binary op lhs rhs left right =>
      obtain ⟨division, first, second⟩ : op.isDivision = false ∧ lhs.isPolynomial = true ∧
          rhs.isPolynomial = true := by simpa [isPolynomial] using polynomial
      obtain ⟨leftDims, rightDims⟩ := Nat.max_le.mp dimsLong
      obtain ⟨leftSymbols, rightSymbols⟩ := Nat.max_le.mp symbolsLong
      obtain ⟨a, leftValue⟩ := left first leftDims leftSymbols
      obtain ⟨b, rightValue⟩ := right second rightDims rightSymbols
      have applied : ∃ word, op.apply a b = some word := by
        cases op with
        | add | mul => exact ⟨_, rfl⟩
        | mod | floorDiv | ceilDiv => cases division
      obtain ⟨word, applied⟩ := applied
      exact ⟨word, eval_binary_eq_some.mpr ⟨a, b, leftValue, rightValue, applied⟩⟩

theorem dimCount_of_isSymbolic (symbolic : expr.isSymbolic = true) : expr.dimCount = 0 := by
  induction expr with
  | dim position => cases symbolic
  | symbol | constant => rfl
  | binary op lhs rhs left right =>
      obtain ⟨first, second⟩ := Bool.and_eq_true_iff.mp symbolic
      rw [dimCount, left first, right second, Nat.max_self]

/-- An expression of sums and products without dimensions has one value at all points. -/
theorem eval_eq_of_isSymbolic (symbolic : expr.isSymbolic = true)
    (polynomial : expr.isPolynomial = true) (long : expr.symbolCount ≤ symbols.length) :
    ∃ word, ∀ dims, expr.eval dims symbols = some word := by
  have none : expr.dimCount ≤ ([] : List Int64).length :=
    Nat.le_of_eq (dimCount_of_isSymbolic symbolic)
  obtain ⟨word, evaluates⟩ := exists_eval polynomial none long
  exact ⟨word, fun dims => (eval_of_isSymbolic symbolic dims [] symbols).trans evaluates⟩

/-- A pure expression of sums and products has coefficients. -/
theorem hasCoefficients_of_isPure (pure : expr.isPure = true)
    (polynomial : expr.isPolynomial = true) (long : expr.symbolCount ≤ symbols.length)
    (inside : expr.dimCount ≤ count) : expr.HasCoefficients symbols count := by
  induction expr with
  | dim position => exact .dim ⟨position, inside⟩
  | symbol position => exact .of_eval fun _ => List.getElem?_eq_getElem long
  | constant word => exact .of_eval fun _ => rfl
  | binary op lhs rhs left right =>
      obtain ⟨division, first, second⟩ : op.isDivision = false ∧ lhs.isPolynomial = true ∧
          rhs.isPolynomial = true := by simpa [isPolynomial] using polynomial
      obtain ⟨leftLong, rightLong⟩ := Nat.max_le.mp long
      obtain ⟨leftInside, rightInside⟩ := Nat.max_le.mp inside
      have leftMultiples := left (isPure_left pure) first leftLong leftInside
      have rightMultiples := right (isPure_right pure) second rightLong rightInside
      cases op with
      | add => exact leftMultiples.add rightMultiples
      | mul =>
          rcases Bool.or_eq_true_iff.mp (Bool.and_eq_true_iff.mp pure).2 with symbolic | symbolic
          · obtain ⟨factor, evaluates⟩ := eval_eq_of_isSymbolic symbolic first leftLong
            exact rightMultiples.mul evaluates
          · obtain ⟨factor, evaluates⟩ := eval_eq_of_isSymbolic symbolic second rightLong
            exact .swap rfl (leftMultiples.mul evaluates)
      | mod | floorDiv | ceilDiv => cases division

/-- A shifted dimension, scaled by a symbol. -/
def scaledShift : AffineExpr :=
  .binary .mul (.binary .add (.dim 1) (.constant 5)) (.symbol 0)

/-- Its share among as many as twice the symbol. -/
def sharedShift : AffineExpr :=
  .binary .floorDiv scaledShift (.binary .mul (.symbol 0) (.constant 2))

end AffineExpr

end AffineKernel
