import AffineKernel.Affine.Expr

/-!
# Folding

Joining two operands with `combine` has one of three outcomes
(`combine_cases`): two constants become their value, a constant on the left of
a sum or product changes sides, or nothing happens before neutral operands are
left out. Leaving them out has three outcomes as well (`simplify_cases`): the
left operand, zero, or the operator that was asked for.

From this the folded expression keeps the value that the operator has on the
operands (`eval_combine`). It may have a value where the operator has none: the
ceiling quotient of the least word by one is the least word. It stays affine,
and mentions no new dimension.

An expression is rebuilt by joining its parts again, from the leaves up. What
was joined from rebuilt parts is left as it is when it is rebuilt, since the
outcome of joining does not fold any further (`rebuild_combine`). So the second
rebuilding changes nothing.
-/

set_option autoImplicit false

namespace AffineKernel

namespace AffineOp

variable {op : AffineOp}

/-- A word that leaves every left operand as it is, where the operator has a value. -/
def Neutral (op : AffineOp) (unit : Int64) : Prop :=
  ∀ a value, op.apply a unit = some value → value = a

/-- A word that makes zero of every left operand. -/
def Absorbing (op : AffineOp) (word : Int64) : Prop :=
  ∀ a, op.apply a word = some 0

theorem apply_comm (commutes : op.commutes = true) (a b : Int64) : op.apply a b = op.apply b a := by
  cases op with
  | add => exact congrArg some (Int64.add_comm a b)
  | mul => exact congrArg some (Int64.mul_comm a b)
  | mod | floorDiv | ceilDiv => cases commutes

theorem neutral_add : Neutral .add 0 := by
  intro a value applied
  have zero : a + 0 = value := Option.some.inj applied
  rw [← zero, Int64.add_zero]

theorem neutral_mul : Neutral .mul 1 := by
  intro a value applied
  have one : a * 1 = value := Option.some.inj applied
  rw [← one, Int64.mul_one]

theorem neutral_floorDiv : Neutral .floorDiv 1 := by
  intro a value applied
  obtain ⟨-, quotient⟩ := Option.ite_none_right_eq_some.mp applied
  cases quotient
  rw [Int64.toInt_one, Int.fdiv_one, Int64.ofInt_toInt]

theorem neutral_ceilDiv : Neutral .ceilDiv 1 := by
  intro a value applied
  obtain ⟨-, quotient⟩ := Option.ite_none_right_eq_some.mp applied
  cases quotient
  rw [Int64.toInt_one, Int.fdiv_one, Int.neg_neg, Int64.ofInt_toInt]

theorem absorbing_mul : Absorbing .mul 0 := fun _ => congrArg some Int64.mul_zero

theorem absorbing_mod : Absorbing .mod 1 := by
  intro a
  have divides : divides a 1 = true := by simp [divides]
  rw [apply, if_pos divides, Int64.toInt_one, Int.fmod_one]
  rfl

end AffineOp

namespace AffineExpr

variable (op : AffineOp) (lhs rhs : AffineExpr)

/-! ## What folding can do -/

theorem simplify_cases :
    (∃ unit, rhs = .constant unit ∧ op.Neutral unit ∧ simplify op lhs rhs = lhs) ∨
      (∃ word, rhs = .constant word ∧ op.Absorbing word ∧ simplify op lhs rhs = .constant 0) ∨
      simplify op lhs rhs = .binary op lhs rhs := by
  cases op with
  | add =>
      by_cases zero : rhs = .constant 0
      · exact .inl ⟨0, zero, AffineOp.neutral_add, if_pos zero⟩
      · exact .inr (.inr (if_neg zero))
  | mul =>
      by_cases one : rhs = .constant 1
      · exact .inl ⟨1, one, AffineOp.neutral_mul, if_pos one⟩
      · by_cases zero : rhs = .constant 0
        · exact .inr (.inl ⟨0, zero, AffineOp.absorbing_mul, (if_neg one).trans (if_pos zero)⟩)
        · exact .inr (.inr ((if_neg one).trans (if_neg zero)))
  | mod =>
      by_cases one : rhs = .constant 1
      · exact .inr (.inl ⟨1, one, AffineOp.absorbing_mod, if_pos one⟩)
      · exact .inr (.inr (if_neg one))
  | floorDiv =>
      by_cases one : rhs = .constant 1
      · exact .inl ⟨1, one, AffineOp.neutral_floorDiv, if_pos one⟩
      · exact .inr (.inr (if_neg one))
  | ceilDiv =>
      by_cases one : rhs = .constant 1
      · exact .inl ⟨1, one, AffineOp.neutral_ceilDiv, if_pos one⟩
      · exact .inr (.inr (if_neg one))

theorem eq_constant_of_asConstant? {expr : AffineExpr} {value : Int64}
    (constant : expr.asConstant? = some value) : expr = .constant value := by
  cases expr with
  | constant word => exact congrArg AffineExpr.constant (Option.some.inj constant)
  | dim | symbol | binary => cases constant

/-- An operand on the left that is no constant stays there. -/
theorem combine_of_not_constant (variable_ : lhs.asConstant? = none) :
    combine op lhs rhs = simplify op lhs rhs := by
  simp only [combine, variable_]

theorem combine_cases :
    (∃ a b value, lhs = .constant a ∧ rhs = .constant b ∧ op.apply a b = some value ∧
        combine op lhs rhs = .constant value) ∨
      (op.commutes = true ∧ rhs.asConstant? = none ∧
        combine op lhs rhs = simplify op rhs lhs) ∨
      combine op lhs rhs = simplify op lhs rhs := by
  cases left : lhs.asConstant? with
  | none => exact .inr (.inr (combine_of_not_constant op lhs rhs left))
  | some a =>
      cases right : rhs.asConstant? with
      | none =>
          by_cases commutes : op.commutes = true
          · exact .inr (.inl ⟨commutes, rfl, by simp only [combine, left, right, if_pos commutes]⟩)
          · exact .inr (.inr (by simp only [combine, left, right, if_neg commutes]))
      | some b =>
          cases applied : op.apply a b with
          | none => exact .inr (.inr (by simp only [combine, left, right, applied]))
          | some value =>
              exact .inl ⟨a, b, value, eq_constant_of_asConstant? left,
                eq_constant_of_asConstant? right, applied, by simp only [combine, left, right, applied]⟩

/-! ## Values -/

variable {op lhs rhs} {dims symbols : List Int64} {a b value : Int64}

theorem eval_binary_eq_some : (binary op lhs rhs).eval dims symbols = some value ↔
    ∃ a b, lhs.eval dims symbols = some a ∧ rhs.eval dims symbols = some b ∧
      op.apply a b = some value := by
  constructor
  · intro evaluates
    obtain ⟨a, left, rest⟩ := Option.bind_eq_some_iff.mp evaluates
    obtain ⟨b, right, applied⟩ := Option.bind_eq_some_iff.mp rest
    exact ⟨a, b, left, right, applied⟩
  · rintro ⟨a, b, left, right, applied⟩
    exact Option.bind_eq_some_iff.mpr ⟨a, left, Option.bind_eq_some_iff.mpr ⟨b, right, applied⟩⟩

theorem eval_simplify (evaluates : (binary op lhs rhs).eval dims symbols = some value) :
    (simplify op lhs rhs).eval dims symbols = some value := by
  obtain ⟨a, b, left, right, applied⟩ := eval_binary_eq_some.mp evaluates
  rcases simplify_cases op lhs rhs with
    ⟨unit, rfl, neutral, same⟩ | ⟨word, rfl, absorbing, same⟩ | same
  · cases right
    rw [same, left, neutral a value applied]
  · cases right
    rw [same, ← applied, absorbing a]
    rfl
  · rw [same, evaluates]

/-- The folded expression has the value that the operator has on the operands. -/
theorem eval_combine (evaluates : (binary op lhs rhs).eval dims symbols = some value) :
    (combine op lhs rhs).eval dims symbols = some value := by
  rcases combine_cases op lhs rhs with
    ⟨a, b, folded, rfl, rfl, applied, same⟩ | ⟨commutes, -, same⟩ | same
  · have direct : op.apply a b = some value := evaluates
    rw [same, ← direct, applied]
    rfl
  · obtain ⟨a, b, left, right, applied⟩ := eval_binary_eq_some.mp evaluates
    rw [same]
    refine eval_simplify (eval_binary_eq_some.mpr ⟨b, a, right, left, ?_⟩)
    rw [AffineOp.apply_comm commutes, applied]
  · rw [same]
    exact eval_simplify evaluates

theorem eval_neg (evaluates : lhs.eval dims symbols = some a) :
    lhs.neg.eval dims symbols = some (-a) := by
  have minus : (constant (-1)).eval dims symbols = some (-1) := rfl
  have negated : a * -1 = -a := by rw [Int64.mul_neg, Int64.mul_one]
  have product : (binary .mul lhs (.constant (-1))).eval dims symbols = some (-a) :=
    eval_binary_eq_some.mpr ⟨a, -1, evaluates, minus, congrArg some negated⟩
  exact eval_combine product

theorem eval_sub (left : lhs.eval dims symbols = some a) (right : rhs.eval dims symbols = some b) :
    (lhs.sub rhs).eval dims symbols = some (a - b) := by
  have sum : (binary .add lhs rhs.neg).eval dims symbols = some (a - b) :=
    eval_binary_eq_some.mpr ⟨a, -b, left, eval_neg right, congrArg some (Int64.sub_eq_add_neg _ _).symm⟩
  exact eval_combine sum

/-! ## Affinity and dimensions -/

theorem isPure_left (pure : (binary op lhs rhs).isPure = true) : lhs.isPure = true := by
  cases op with
  | mul => exact (Bool.and_eq_true_iff.mp (Bool.and_eq_true_iff.mp pure).1).1
  | add | mod | floorDiv | ceilDiv => exact (Bool.and_eq_true_iff.mp pure).1

theorem isPure_simplify (pure : (binary op lhs rhs).isPure = true) :
    (simplify op lhs rhs).isPure = true := by
  rcases simplify_cases op lhs rhs with ⟨_, _, _, same⟩ | ⟨_, _, _, same⟩ | same
  · rw [same]
    exact isPure_left pure
  · rw [same]
    rfl
  · rw [same, pure]

theorem isPure_swap (commutes : op.commutes = true) :
    (binary op rhs lhs).isPure = (binary op lhs rhs).isPure := by
  cases op with
  | add => exact Bool.and_comm _ _
  | mul => simp only [isPure, Bool.and_comm, Bool.or_comm]
  | mod | floorDiv | ceilDiv => cases commutes

theorem isPure_combine (pure : (binary op lhs rhs).isPure = true) :
    (combine op lhs rhs).isPure = true := by
  rcases combine_cases op lhs rhs with ⟨_, _, _, _, _, _, same⟩ | ⟨commutes, -, same⟩ | same
  · rw [same]
    rfl
  · rw [same]
    exact isPure_simplify ((isPure_swap commutes).trans pure)
  · rw [same]
    exact isPure_simplify pure

variable (op lhs rhs)

theorem dimCount_simplify : (simplify op lhs rhs).dimCount ≤ max lhs.dimCount rhs.dimCount := by
  rcases simplify_cases op lhs rhs with ⟨_, _, _, same⟩ | ⟨_, _, _, same⟩ | same
  · rw [same]
    exact Nat.le_max_left _ _
  · rw [same]
    exact Nat.zero_le _
  · rw [same]
    exact Nat.le_refl _

theorem dimCount_combine : (combine op lhs rhs).dimCount ≤ (binary op lhs rhs).dimCount := by
  rcases combine_cases op lhs rhs with ⟨_, _, _, _, _, _, same⟩ | ⟨-, -, same⟩ | same
  · rw [same]
    exact Nat.zero_le _
  · rw [same, dimCount, Nat.max_comm]
    exact dimCount_simplify op rhs lhs
  · rw [same]
    exact dimCount_simplify op lhs rhs

/-! ## Rebuilding -/

/-- The expression whose parts are joined again, from the leaves up. -/
def rebuild : AffineExpr → AffineExpr
  | .dim position => .dim position
  | .symbol position => .symbol position
  | .constant value => .constant value
  | .binary op lhs rhs => combine op lhs.rebuild rhs.rebuild

variable {op lhs rhs}

/-- What was joined from rebuilt operands is rebuilt. -/
theorem rebuild_combine (left : lhs.rebuild = lhs) (right : rhs.rebuild = rhs) :
    (combine op lhs rhs).rebuild = combine op lhs rhs := by
  have simplified {first second : AffineExpr} (firstSame : first.rebuild = first)
      (secondSame : second.rebuild = second) (joined : combine op first second = simplify op first second) :
      (simplify op first second).rebuild = simplify op first second := by
    rcases simplify_cases op first second with ⟨_, _, _, same⟩ | ⟨_, _, _, same⟩ | same
    · rw [same, firstSame]
    · rw [same]
      rfl
    · rw [same, rebuild, firstSame, secondSame, joined, same]
  rcases combine_cases op lhs rhs with ⟨_, _, _, _, _, _, same⟩ | ⟨-, variable_, same⟩ | same
  · rw [same]
    rfl
  · rw [same]
    exact simplified right left (combine_of_not_constant op rhs lhs variable_)
  · rw [same]
    exact simplified left right same

theorem rebuild_rebuild (expr : AffineExpr) : expr.rebuild.rebuild = expr.rebuild := by
  induction expr with
  | dim | symbol | constant => rfl
  | binary op lhs rhs left right => exact rebuild_combine left right

/-- **Folding is sound and canonical.** Where an operator has a value on its operands, the folded
expression has the same one, negation and difference are those of words, and a formula that is
affine stays so and mentions no new dimension. To rebuild an expression twice is to rebuild it
once. -/
theorem folding_sound (op : AffineOp) (lhs rhs expr : AffineExpr) :
    (∀ dims symbols value, (binary op lhs rhs).eval dims symbols = some value →
        (combine op lhs rhs).eval dims symbols = some value) ∧
      (∀ dims symbols a, lhs.eval dims symbols = some a →
        lhs.neg.eval dims symbols = some (-a)) ∧
      (∀ dims symbols a b, lhs.eval dims symbols = some a → rhs.eval dims symbols = some b →
        (lhs.sub rhs).eval dims symbols = some (a - b)) ∧
      ((binary op lhs rhs).isPure = true → (combine op lhs rhs).isPure = true) ∧
      (combine op lhs rhs).dimCount ≤ (binary op lhs rhs).dimCount ∧
      expr.rebuild.rebuild = expr.rebuild :=
  ⟨fun _ _ _ => eval_combine, fun _ _ _ => eval_neg, fun _ _ _ _ => eval_sub, isPure_combine,
    dimCount_combine op lhs rhs, rebuild_rebuild expr⟩

/-- The product of the least word and a dimension, and a sum with a remainder by one. -/
theorem least_folding_sound :
    (combine .mul (.constant Int64.minValue) (.dim 0)).eval [-1] [] = some Int64.minValue ∧
      (neg (.constant Int64.minValue)).eval [-1] [] = some Int64.minValue ∧
      (sub (.constant Int64.minValue) (.dim 0)).eval [-1] [] = some (Int64.minValue + 1) ∧
      (combine .mul (.constant Int64.minValue) (.dim 0)).isPure = true ∧
      rebuild (.constant 1) =
        rebuild (rebuild (.binary .add (.constant 1) (.binary .mod (.dim 0) (.constant 1)))) := by
  obtain ⟨value, negation, difference, pure, -, rebuilt⟩ := folding_sound .mul
    (.constant Int64.minValue) (.dim 0) (.binary .add (.constant 1) (.binary .mod (.dim 0) (.constant 1)))
  refine ⟨value [-1] [] _ (by decide), ?_, ?_, pure (by decide), ?_⟩
  · exact negation [-1] [] Int64.minValue (by decide)
  · exact difference [-1] [] Int64.minValue (-1) (by decide) (by decide)
  · rw [rebuilt]
    decide

end AffineExpr

end AffineKernel
