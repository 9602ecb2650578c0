import AffineKernel.Proofs.Affine.Folding

/-!
# Divisors of affine expressions

A divisor of an affine formula has no dimensions. Without symbols it is a
formula of constants, and such a formula is folded when it is joined: what is
left is a constant, or it never has a value, as the quotient of the least word
by minus one (`AffineExpr.Settled`). So if no divisor is the literal zero when
it is joined, none is ever zero, also those that come about by folding
afterwards (`AffineExpr.DividesProperly`).

`AffineExpr.Proper` says all that holds of a formula that is read off an index,
and `AffineExpr.Proper.combine` that joining keeps it.
-/

set_option autoImplicit false

namespace AffineKernel

/-- Quotients and remainders. -/
def AffineOp.isDivision : AffineOp → Bool
  | .mod | .floorDiv | .ceilDiv => true
  | .add | .mul => false

theorem AffineOp.commutes_eq (op : AffineOp) : op.commutes = !op.isDivision := by
  cases op <;> rfl

/-- Nothing is divided by zero. -/
theorem AffineOp.apply_zero {op : AffineOp} (division : op.isDivision = true) (a : Int64) :
    op.apply a 0 = none := by
  cases op with
  | add | mul => cases division
  | mod | floorDiv | ceilDiv => simp [apply, divides]

namespace AffineExpr

/-- An expression and the operands below it. -/
def parts : AffineExpr → List AffineExpr
  | .binary op lhs rhs => .binary op lhs rhs :: (lhs.parts ++ rhs.parts)
  | expr => [expr]

/-- No divisor in an expression has the value zero, whatever the dimensions and symbols are. -/
def DividesProperly (expr : AffineExpr) : Prop :=
  ∀ op lhs rhs, .binary op lhs rhs ∈ expr.parts → op.isDivision = true →
    ∀ dims symbols, rhs.eval dims symbols ≠ some 0

/-- An expression without dimensions is a constant, or it never has a value. -/
def Settled (expr : AffineExpr) : Prop :=
  expr.isSymbolic = true →
    (∃ value, expr = .constant value) ∨ ∀ dims symbols, expr.eval dims symbols = none

variable {op : AffineOp} {lhs rhs expr : AffineExpr} {value : Int64}

/-- An expression has a value only if its operands have one. -/
theorem eval_part {part : AffineExpr} {dims symbols : List Int64}
    (evaluates : expr.eval dims symbols = some value)
    (below : part ∈ expr.parts) : ∃ word, part.eval dims symbols = some word := by
  induction expr generalizing value with
  | dim | symbol | constant =>
      cases List.mem_singleton.mp below
      exact ⟨value, evaluates⟩
  | binary op lhs rhs left right =>
      rcases List.mem_cons.mp below with same | strictly
      · exact ⟨value, same ▸ evaluates⟩
      · obtain ⟨a, b, leftValue, rightValue, -⟩ := eval_binary_eq_some.mp evaluates
        rcases List.mem_append.mp strictly with first | second
        · exact left leftValue first
        · exact right rightValue second

theorem settled_constant (value : Int64) : (constant value).Settled :=
  fun _ => .inl ⟨value, rfl⟩

/-- Joining folds constants, so what is left of them has no value. -/
theorem Settled.simplify (left : lhs.Settled) (right : rhs.Settled)
    (unfolded : ∀ a b, lhs = .constant a → rhs = .constant b → op.apply a b = none) :
    (simplify op lhs rhs).Settled := by
  rcases simplify_cases op lhs rhs with ⟨_, _, _, same⟩ | ⟨_, _, _, same⟩ | same
  · rwa [same]
  · rw [same]
    exact settled_constant 0
  · rw [same]
    intro symbolic
    obtain ⟨first, second⟩ := Bool.and_eq_true_iff.mp symbolic
    refine .inr fun dims symbols => ?_
    apply Option.eq_none_iff_forall_ne_some.mpr
    intro value evaluates
    obtain ⟨a, b, leftValue, rightValue, applied⟩ := eval_binary_eq_some.mp evaluates
    rcases left first with ⟨a', rfl⟩ | none
    · rcases right second with ⟨b', rfl⟩ | none
      · cases leftValue
        cases rightValue
        rw [unfolded a b rfl rfl] at applied
        cases applied
      · rw [none] at rightValue
        cases rightValue
    · rw [none] at leftValue
      cases leftValue

theorem Settled.combine (left : lhs.Settled) (right : rhs.Settled) :
    (combine op lhs rhs).Settled := by
  by_cases folds : ∃ a b value, lhs = .constant a ∧ rhs = .constant b ∧ op.apply a b = some value
  · obtain ⟨a, b, value, rfl, rfl, applied⟩ := folds
    have folded : AffineExpr.combine op (.constant a) (.constant b) = .constant value := by
      simp only [AffineExpr.combine, asConstant?, applied]
    rw [folded]
    exact settled_constant value
  · have unfolded : ∀ a b, lhs = .constant a → rhs = .constant b → op.apply a b = none := by
      intro a b first second
      apply Option.eq_none_iff_forall_ne_some.mpr
      intro value applied
      exact folds ⟨a, b, value, first, second, applied⟩
    rcases combine_cases op lhs rhs with ⟨_, _, value, _, _, _, same⟩ | ⟨commutes, -, same⟩ | same
    · rw [same]
      exact settled_constant value
    · rw [same]
      apply right.simplify left
      intro b a second first
      rw [AffineOp.apply_comm commutes, unfolded a b first second]
    · rw [same]
      exact left.simplify right unfolded

theorem isSymbolic_right (division : op.isDivision = true)
    (pure : (binary op lhs rhs).isPure = true) : rhs.isSymbolic = true := by
  cases op with
  | add | mul => cases division
  | mod | floorDiv | ceilDiv => exact (Bool.and_eq_true_iff.mp pure).2

/-- A divisor that is left in an affine formula has no dimensions. -/
theorem isSymbolic_divisor (division : op.isDivision = true)
    (pure : (combine op lhs rhs).isPure = true) : rhs.isSymbolic = true := by
  rcases combine_cases op lhs rhs with ⟨_, _, _, rfl, rfl, _, _⟩ | ⟨commutes, -, -⟩ | same
  · rfl
  · rw [op.commutes_eq, division] at commutes
    cases commutes
  · rcases simplify_cases op lhs rhs with ⟨_, rfl, _, _⟩ | ⟨_, rfl, _, _⟩ | kept
    · rfl
    · rfl
    · rw [same, kept] at pure
      exact isSymbolic_right division pure

/-- A divisor without dimensions that is not the literal zero is not zero. -/
theorem Settled.eval_ne_zero (settled : expr.Settled) (symbolic : expr.isSymbolic = true)
    (nonzero : expr ≠ .constant 0) (dims symbols : List Int64) :
    expr.eval dims symbols ≠ some 0 := by
  intro zero
  rcases settled symbolic with ⟨value, rfl⟩ | none
  · obtain rfl : value = 0 := Option.some.inj zero
    exact nonzero rfl
  · rw [none] at zero
    cases zero

theorem DividesProperly.binary (left : lhs.DividesProperly) (right : rhs.DividesProperly)
    (proper : op.isDivision = true → ∀ dims symbols, rhs.eval dims symbols ≠ some 0) :
    (binary op lhs rhs).DividesProperly := by
  intro op' lhs' rhs' part division
  rcases List.mem_cons.mp part with same | below
  · cases same
    exact proper division
  · rcases List.mem_append.mp below with first | second
    · exact left op' lhs' rhs' first division
    · exact right op' lhs' rhs' second division

theorem dividesProperly_constant (value : Int64) : (constant value).DividesProperly := by
  intro op lhs rhs part
  cases List.mem_singleton.mp part

theorem DividesProperly.simplify (left : lhs.DividesProperly) (right : rhs.DividesProperly)
    (proper : op.isDivision = true → ∀ dims symbols, rhs.eval dims symbols ≠ some 0) :
    (simplify op lhs rhs).DividesProperly := by
  rcases simplify_cases op lhs rhs with ⟨_, _, _, same⟩ | ⟨_, _, _, same⟩ | same
  · rwa [same]
  · rw [same]
    exact dividesProperly_constant 0
  · rw [same]
    exact left.binary right proper

theorem DividesProperly.combine (left : lhs.DividesProperly) (right : rhs.DividesProperly)
    (proper : op.isDivision = true → ∀ dims symbols, rhs.eval dims symbols ≠ some 0) :
    (combine op lhs rhs).DividesProperly := by
  rcases combine_cases op lhs rhs with ⟨_, _, value, _, _, _, same⟩ | ⟨commutes, -, same⟩ | same
  · rw [same]
    exact dividesProperly_constant value
  · rw [same]
    apply right.simplify left
    intro division
    rw [op.commutes_eq, division] at commutes
    cases commutes
  · rw [same]
    exact left.simplify right proper

/-- What is read off an index: an affine formula over the first dimensions, without a divisor that
is zero. -/
structure Proper (dims : Nat) (expr : AffineExpr) : Prop where
  pure : expr.isPure = true
  inside : expr.dimCount ≤ dims
  divides : expr.DividesProperly
  settled : expr.Settled

namespace Proper

variable {dims : Nat}

theorem dim {position : Nat} (inside : position < dims) : Proper dims (.dim position) where
  pure := rfl
  inside := inside
  divides := by
    intro op lhs rhs part
    cases List.mem_singleton.mp part
  settled := by
    intro symbolic
    cases symbolic

theorem constant (value : Int64) : Proper dims (.constant value) where
  pure := rfl
  inside := Nat.zero_le dims
  divides := dividesProperly_constant value
  settled := settled_constant value

theorem mono {more : Nat} (proper : Proper dims expr) (le : dims ≤ more) : Proper more expr :=
  { proper with inside := Nat.le_trans proper.inside le }

/-- Joining keeps all but purity, which has to be checked. -/
theorem combine (left : Proper dims lhs) (right : Proper dims rhs)
    (pure : (combine op lhs rhs).isPure = true)
    (nonzero : op.isDivision = true → rhs ≠ .constant 0) :
    Proper dims (AffineExpr.combine op lhs rhs) where
  pure := pure
  inside := Nat.le_trans (dimCount_combine op lhs rhs) (Nat.max_le.mpr ⟨left.inside, right.inside⟩)
  divides := by
    apply left.divides.combine right.divides
    intro division
    exact right.settled.eval_ne_zero (isSymbolic_divisor division pure) (nonzero division)
  settled := left.settled.combine right.settled

end Proper

end AffineExpr

end AffineKernel
