import Mathlib.Data.Rat.Floor
import AffineKernel.Power
import AffineKernel.Proofs.Affine.Coefficients

/-!
# Exact values of affine expressions

Over the integers a sum or product is exact, a quotient is rounded down or up,
and a remainder is what is left of the dividend on the side of the divisor and
nearer to zero than it (`AffineOp.Exact`). By this every operator has at most
one result, and it has one unless it divides by zero. `AffineExpr.Exact` lifts it
to expressions.

A word holds more than twice what a moderate number needs: one of magnitude up
to `2 ^ 62`. So an operator on words comes out exact if operands and result are
moderate (`AffineOp.Exact.apply`): nothing wraps, and the quotient of the least
word by minus one does not arise. By induction an expression whose operands are
moderate throughout has its exact value.
-/

set_option autoImplicit false

namespace AffineKernel

/-! ## Operators -/

namespace AffineOp

/-- The result of an operator over the integers. A remainder differs from the dividend by a multiple
of the divisor, has the sign of the divisor, and is smaller in magnitude. -/
def Exact (op : AffineOp) (a b result : Int) : Prop :=
  match op with
  | .add => result = a + b
  | .mul => result = a * b
  | .floorDiv => b ≠ 0 ∧ result = ⌊(a / b : ℚ)⌋
  | .ceilDiv => b ≠ 0 ∧ result = ⌈(a / b : ℚ)⌉
  | .mod => b ∣ a - result ∧ |result| < |b| ∧ 0 ≤ result * b

variable {op : AffineOp} {a b result other : Int} {x y : Int64}

theorem floor_eq_fdiv (a b : Int) : ⌊(a / b : ℚ)⌋ = a.fdiv b := by
  have natural (a : Int) (count : Nat) : ⌊(a / (count : Int) : ℚ)⌋ = a.fdiv count := by
    rw [Int.cast_natCast, Rat.floor_intCast_div_natCast,
      Int.fdiv_eq_ediv_of_nonneg a (Int.natCast_nonneg count)]
  obtain ⟨count, rfl | rfl⟩ := b.eq_nat_or_neg
  · exact natural a count
  · rw [Int.cast_neg, div_neg, ← neg_div, ← Int.cast_neg, natural, ← Int.neg_fdiv_neg, neg_neg]

theorem ceil_eq_neg_fdiv (a b : Int) : ⌈(a / b : ℚ)⌉ = -(-a).fdiv b := by
  rw [← floor_eq_fdiv, Int.cast_neg, neg_div, Int.floor_neg, neg_neg]

/-- A remainder lies between zero and the divisor. -/
theorem exact_mod_iff : Exact .mod a b result ↔
    b ∣ a - result ∧ (0 < b ∧ 0 ≤ result ∧ result < b ∨ b < 0 ∧ b < result ∧ result ≤ 0) := by
  refine and_congr_right fun _ => ⟨?_, ?_⟩
  · rintro ⟨near, side⟩
    rcases lt_trichotomy b 0 with negative | rfl | positive
    · have sign := nonpos_of_mul_nonneg_left side negative
      rw [abs_of_neg negative, abs_of_nonpos sign] at near
      exact .inr ⟨negative, by omega, sign⟩
    · rw [abs_zero] at near
      exact absurd near (not_lt_of_ge (abs_nonneg result))
    · have sign := nonneg_of_mul_nonneg_left side positive
      rw [abs_of_pos positive, abs_of_nonneg sign] at near
      exact .inl ⟨positive, sign, near⟩
  · rintro (⟨positive, sign, near⟩ | ⟨negative, near, sign⟩)
    · rw [abs_of_pos positive, abs_of_nonneg sign]
      exact ⟨near, Int.mul_nonneg sign (Int.le_of_lt positive)⟩
    · rw [abs_of_neg negative, abs_of_nonpos sign]
      exact ⟨by omega, Int.mul_nonneg_of_nonpos_of_nonpos sign (Int.le_of_lt negative)⟩

/-- The remainder of the floor quotient is on the side of the divisor. -/
theorem exact_fmod (nonzero : b ≠ 0) : Exact .mod a b (a.fmod b) := by
  refine exact_mod_iff.mpr ⟨⟨a.fdiv b, by rw [Int.fmod_def, sub_sub_cancel]⟩, ?_⟩
  rcases lt_or_gt_of_ne nonzero with negative | positive
  · have low := Int.fmod_nonneg_of_pos (-a) (Int.neg_pos_of_neg negative)
    have high := Int.fmod_lt_of_pos (-a) (Int.neg_pos_of_neg negative)
    rw [Int.neg_fmod_neg] at low high
    exact .inr ⟨negative, by omega, by omega⟩
  · exact .inl ⟨positive, Int.fmod_nonneg_of_pos a positive, Int.fmod_lt_of_pos a positive⟩

namespace Exact

/-- A division with a result is not one by zero. -/
theorem ne_zero (exact : op.Exact a b result) (division : op.isDivision = true) : b ≠ 0 := by
  cases op with
  | add | mul => cases division
  | floorDiv | ceilDiv => exact exact.1
  | mod =>
      obtain ⟨-, ⟨positive, -⟩ | ⟨negative, -⟩⟩ := exact_mod_iff.mp exact
      · exact positive.ne'
      · exact negative.ne

theorem unique (exact : op.Exact a b result) (also : op.Exact a b other) : other = result := by
  cases op with
  | add | mul => exact also.trans exact.symm
  | floorDiv | ceilDiv => exact also.2.trans exact.2.symm
  | mod =>
      obtain ⟨divides, range⟩ := exact_mod_iff.mp exact
      obtain ⟨divides', range'⟩ := exact_mod_iff.mp also
      have multiple : b ∣ other - result := by
        have difference := dvd_sub divides divides'
        rwa [sub_sub_sub_cancel_left] at difference
      -- two remainders on one side of zero are nearer to each other than the divisor is to zero
      have close : |other - result| < |b| := by
        rcases range with ⟨positive, range⟩ | ⟨negative, range⟩
        · rw [abs_of_pos positive]
          exact abs_lt.mpr ⟨by omega, by omega⟩
        · rw [abs_of_neg negative]
          exact abs_lt.mpr ⟨by omega, by omega⟩
      exact sub_eq_zero.mp (Int.eq_zero_of_abs_lt_dvd ((abs_dvd b _).mpr multiple) close)

end Exact

theorem exists_exact (nonzero : op.isDivision = true → b ≠ 0) : ∃ result, op.Exact a b result := by
  cases op with
  | add | mul => exact ⟨_, rfl⟩
  | floorDiv | ceilDiv => exact ⟨_, nonzero rfl, rfl⟩
  | mod => exact ⟨_, exact_fmod (nonzero rfl)⟩

/-! ## Words -/

theorem toInt_ofInt_of_moderate (moderate : |result| ≤ 2 ^ 62) :
    (Int64.ofInt result).toInt = result := by
  obtain ⟨low, high⟩ := abs_le.mp moderate
  exact Int64.toInt_ofInt_of_le (by omega) (by omega)

theorem ne_minValue_of_moderate (moderate : |x.toInt| ≤ 2 ^ 62) : x ≠ Int64.minValue := by
  rintro rfl
  exact absurd moderate (by decide)

theorem divides_of_moderate (moderate : |x.toInt| ≤ 2 ^ 62) (nonzero : y ≠ 0) :
    divides x y = true := by
  simp [divides, nonzero, ne_minValue_of_moderate moderate]

/-- On words an operator comes out exact if operands and result are moderate. -/
theorem Exact.apply (exact : op.Exact x.toInt y.toInt result) (left : |x.toInt| ≤ 2 ^ 62)
    (moderate : |result| ≤ 2 ^ 62) : ∃ word, op.apply x y = some word ∧ word.toInt = result := by
  refine ⟨Int64.ofInt result, ?_, toInt_ofInt_of_moderate moderate⟩
  have divisor : op.isDivision = true → y ≠ 0 := by
    rintro division rfl
    exact exact.ne_zero division rfl
  cases op with
  | add =>
      obtain rfl : result = _ := exact
      rw [AffineOp.apply, Int64.ofInt_add, Int64.ofInt_toInt, Int64.ofInt_toInt]
  | mul =>
      obtain rfl : result = _ := exact
      rw [AffineOp.apply, Int64.ofInt_mul, Int64.ofInt_toInt, Int64.ofInt_toInt]
  | floorDiv =>
      obtain ⟨-, rfl⟩ := exact
      rw [AffineOp.apply, if_pos (divides_of_moderate left (divisor rfl)), floor_eq_fdiv]
  | ceilDiv =>
      obtain ⟨-, rfl⟩ := exact
      rw [AffineOp.apply, if_pos ⟨ne_minValue_of_moderate left, divisor rfl⟩, ceil_eq_neg_fdiv]
  | mod =>
      obtain rfl := (exact_fmod (exact.ne_zero rfl)).unique exact
      rw [AffineOp.apply, if_pos (divides_of_moderate left (divisor rfl))]

end AffineOp

/-! ## Expressions -/

namespace AffineExpr

variable {op : AffineOp} {lhs rhs expr part : AffineExpr} {dims symbols : List Int64}
  {value other : Int}

/-- The value of an expression over the integers, at words. -/
inductive Exact (dims symbols : List Int64) : AffineExpr → Int → Prop where
  | dim {position : Nat} {word : Int64} :
      dims[position]? = some word → Exact dims symbols (.dim position) word.toInt
  | symbol {position : Nat} {word : Int64} :
      symbols[position]? = some word → Exact dims symbols (.symbol position) word.toInt
  | constant (word : Int64) : Exact dims symbols (.constant word) word.toInt
  | binary {op : AffineOp} {lhs rhs : AffineExpr} {a b result : Int} :
      Exact dims symbols lhs a → Exact dims symbols rhs b → op.Exact a b result →
        Exact dims symbols (.binary op lhs rhs) result

/-- Over the integers nothing in an expression is divided by zero, and no operand, and neither the
expression itself, has a magnitude above `2 ^ 62`. -/
structure Moderate (dims symbols : List Int64) (expr : AffineExpr) : Prop where
  nonzero : ∀ op lhs rhs, binary op lhs rhs ∈ expr.parts → op.isDivision = true →
    ¬ rhs.Exact dims symbols 0
  bounded : ∀ part ∈ expr.parts, ∀ value, part.Exact dims symbols value → |value| ≤ 2 ^ 62

theorem self_mem_parts (expr : AffineExpr) : expr ∈ expr.parts := by
  cases expr <;> exact List.mem_cons_self ..

namespace Moderate

theorem left (moderate : (binary op lhs rhs).Moderate dims symbols) :
    lhs.Moderate dims symbols where
  nonzero op' lhs' rhs' part := moderate.nonzero op' lhs' rhs' (by simp [parts, part])
  bounded part below := moderate.bounded part (by simp [parts, below])

theorem right (moderate : (binary op lhs rhs).Moderate dims symbols) :
    rhs.Moderate dims symbols where
  nonzero op' lhs' rhs' part := moderate.nonzero op' lhs' rhs' (by simp [parts, part])
  bounded part below := moderate.bounded part (by simp [parts, below])

end Moderate

theorem Exact.unique (exact : expr.Exact dims symbols value)
    (also : expr.Exact dims symbols other) : other = value := by
  induction exact generalizing other with
  | dim found =>
      cases also with
      | dim found' => rw [Option.some.inj (found.symm.trans found')]
  | symbol found =>
      cases also with
      | symbol found' => rw [Option.some.inj (found.symm.trans found')]
  | constant word =>
      cases also
      rfl
  | binary _ _ applied left right =>
      cases also with
      | binary left' right' applied' =>
          rw [left left', right right'] at applied'
          exact applied.unique applied'

namespace Moderate

theorem leaf (single : expr.parts = [expr]) (exact : expr.Exact dims symbols value)
    (bound : |value| ≤ 2 ^ 62) : expr.Moderate dims symbols where
  nonzero op lhs rhs part := by
    rw [single] at part
    obtain rfl := List.mem_singleton.mp part
    have inside := self_mem_parts lhs
    obtain ⟨none, -⟩ : lhs.parts = [] ∧ rhs.parts = [] := by simpa [parts] using single
    rw [none] at inside
    cases inside
  bounded part below other also := by
    rw [single] at below
    obtain rfl := List.mem_singleton.mp below
    rwa [exact.unique also]

theorem binary (left : lhs.Moderate dims symbols) (right : rhs.Moderate dims symbols)
    (exact : (binary op lhs rhs).Exact dims symbols value) (bound : |value| ≤ 2 ^ 62) :
    (AffineExpr.binary op lhs rhs).Moderate dims symbols where
  nonzero op' lhs' rhs' part division zero := by
    rcases List.mem_cons.mp part with same | below
    · cases same
      cases exact with
      | binary _ divisor applied => exact applied.ne_zero division (zero.unique divisor)
    · rcases List.mem_append.mp below with first | second
      · exact left.nonzero op' lhs' rhs' first division zero
      · exact right.nonzero op' lhs' rhs' second division zero
  bounded part below other also := by
    rcases List.mem_cons.mp below with rfl | below
    · rwa [exact.unique also]
    · rcases List.mem_append.mp below with first | second
      · exact left.bounded part first other also
      · exact right.bounded part second other also

end Moderate

/-- An expression has an exact value if dimensions and symbols have one and nothing is divided by
zero. -/
theorem exists_exact (dimsLong : expr.dimCount ≤ dims.length)
    (symbolsLong : expr.symbolCount ≤ symbols.length) (moderate : expr.Moderate dims symbols) :
    ∃ value, expr.Exact dims symbols value := by
  induction expr with
  | dim position => exact ⟨_, .dim (List.getElem?_eq_getElem dimsLong)⟩
  | symbol position => exact ⟨_, .symbol (List.getElem?_eq_getElem symbolsLong)⟩
  | constant word => exact ⟨_, .constant word⟩
  | binary op lhs rhs left right =>
      obtain ⟨leftDims, rightDims⟩ := Nat.max_le.mp dimsLong
      obtain ⟨leftSymbols, rightSymbols⟩ := Nat.max_le.mp symbolsLong
      obtain ⟨a, first⟩ := left leftDims leftSymbols moderate.left
      obtain ⟨b, second⟩ := right rightDims rightSymbols moderate.right
      have nonzero : op.isDivision = true → b ≠ 0 := by
        rintro division rfl
        exact moderate.nonzero op lhs rhs (self_mem_parts _) division second
      obtain ⟨result, applied⟩ := AffineOp.exists_exact nonzero
      exact ⟨result, .binary first second applied⟩

/-- Where all operands are moderate, evaluation on words yields the exact value. -/
theorem Exact.eval (exact : expr.Exact dims symbols value) (moderate : expr.Moderate dims symbols) :
    ∃ word, expr.eval dims symbols = some word ∧ word.toInt = value := by
  induction exact with
  | dim found | symbol found => exact ⟨_, found, rfl⟩
  | constant word => exact ⟨word, rfl, rfl⟩
  | @binary op lhs rhs a b result left right applied leftValue rightValue =>
      obtain ⟨x, first, rfl⟩ := leftValue moderate.left
      obtain ⟨y, second, rfl⟩ := rightValue moderate.right
      have operand := moderate.bounded lhs (by simp [parts, self_mem_parts]) _ left
      have bound := moderate.bounded _ (self_mem_parts _) _ (.binary left right applied)
      obtain ⟨word, computed, same⟩ := applied.apply operand bound
      exact ⟨word, eval_binary_eq_some.mpr ⟨x, y, first, second, computed⟩, same⟩

/-- An expression with a divisor of value zero has no value. -/
theorem eval_eq_none (part : binary op lhs rhs ∈ expr.parts) (division : op.isDivision = true)
    (zero : rhs.eval dims symbols = some 0) : expr.eval dims symbols = none := by
  refine Option.eq_none_iff_forall_ne_some.mpr fun value evaluates => ?_
  obtain ⟨quotient, partValue⟩ := eval_part evaluates part
  obtain ⟨a, b, -, divisor, applied⟩ := eval_binary_eq_some.mp partValue
  cases divisor.symm.trans zero
  rw [AffineOp.apply_zero division] at applied
  cases applied

/-- A quotient rounded up and a remainder, both by negative numbers. -/
def slanted : AffineExpr :=
  .binary .add (.binary .ceilDiv (.dim 0) (.constant (-3)))
    (.binary .mod (.symbol 0) (.constant (-5)))

/-- A quotient by a sum. -/
def quotientBySum : AffineExpr :=
  .binary .floorDiv (.dim 0) (.binary .add (.symbol 0) (.constant (-12)))

end AffineExpr

end AffineKernel
