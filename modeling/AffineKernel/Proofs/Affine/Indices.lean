import AffineKernel.Proofs.Affine.Folding
import AffineKernel.Proofs.Build.Access
import AffineKernel.Proofs.Semantics.Exactness

/-!
# Affine forms of index expressions

The affine form of an index expression has the exact value of the expression, if
there is one (`Extraction.eval_index`). Reading an index only adds loop
variables behind those that were collected before, so what was read before
keeps its value (`AffineExpr.eval_append`), and each operator is replaced by a
folded affine operator with the same value on words (`Extraction.eval_operator`).

Truncating quotients and remainders become floor quotients and remainders: they
are the same where the dividend is not negative and the divisor positive.
-/

set_option autoImplicit false

namespace AffineKernel

/-- More dimensions do not change the value of an expression. -/
theorem AffineExpr.eval_append {dims symbols : List Int64} (more : List Int64)
    {expr : AffineExpr} {value : Int64} (evaluates : expr.eval dims symbols = some value) :
    expr.eval (dims ++ more) symbols = some value := by
  induction expr generalizing value with
  | dim position =>
      have found : dims[position]? = some value := evaluates
      have inside : position < dims.length := (List.getElem?_eq_some_iff.mp found).1
      rw [eval, List.getElem?_append_left inside, found]
  | symbol position => exact evaluates
  | constant word => exact evaluates
  | binary op lhs rhs left right =>
      obtain ⟨a, b, first, second, applied⟩ := eval_binary_eq_some.mp evaluates
      exact eval_binary_eq_some.mpr ⟨a, b, left first, right second, applied⟩

namespace Extraction

variable {assignment : NodeId → Int64} {kind : BinaryKind} {a b number : Int}

/-- The words that an assignment gives to loop variables. -/
def words (assignment : NodeId → Int64) (refs : List LoopRef) : List Int64 :=
  refs.map fun ref => assignment ref.id

theorem words_append (refs more : List LoopRef) :
    words assignment (refs ++ more) = words assignment refs ++ words assignment more :=
  List.map_append

/-- The dimension of a loop variable has the word of the variable. -/
theorem words_slot {ref : LoopRef} {found refs : List LoopRef} {position : Nat}
    (slotted : slot ref found = .ok position refs) :
    (∃ more, refs = found ++ more) ∧
      (words assignment refs)[position]? = some (assignment ref.id) := by
  rcases slot_cases slotted with ⟨rfl, seen, place, same⟩ | ⟨rfl, rfl, -⟩
  · refine ⟨⟨[], (List.append_nil refs).symm⟩, ?_⟩
    rw [words, List.getElem?_map, place]
    exact congrArg (fun id => some (assignment id)) same
  · refine ⟨⟨[ref], rfl⟩, ?_⟩
    simp [words]

/-! ## Operators -/

/-- A word is read back as the number that it was made of. -/
theorem toInt_ofInt (contains : DType.index.Contains number) :
    (Int64.ofInt number).toInt = number := toInt_ofInt_of_fits contains.fits

/-- The quotient of two words has a value if it is a word. -/
theorem divides_ofInt (left : DType.index.Contains a) (right : DType.index.Contains b)
    (nonzero : b ≠ 0) (quotient : DType.index.Contains (a.fdiv b)) :
    AffineOp.divides (Int64.ofInt a) (Int64.ofInt b) = true := by
  have divisor : Int64.ofInt b ≠ 0 := by
    intro zero
    have same := congrArg Int64.toInt zero
    rw [toInt_ofInt right] at same
    exact nonzero same
  have proper : ¬ (Int64.ofInt a = Int64.minValue ∧ Int64.ofInt b = -1) := by
    rintro ⟨least, minus⟩
    have first := congrArg Int64.toInt least
    have second := congrArg Int64.toInt minus
    rw [toInt_ofInt left] at first
    rw [toInt_ofInt right] at second
    rw [first, second] at quotient
    exact absurd (fits_index_iff.mp quotient.fits).2 (by decide)
  simpa [AffineOp.divides, divisor] using Decidable.not_and_iff_not_or_not.mp proper

/-- The floor quotient and remainder of words are those of the numbers. -/
theorem apply_division (left : DType.index.Contains a) (right : DType.index.Contains b)
    (nonzero : b ≠ 0) (quotient : DType.index.Contains (a.fdiv b)) :
    AffineOp.floorDiv.apply (Int64.ofInt a) (Int64.ofInt b) = some (Int64.ofInt (a.fdiv b)) ∧
      AffineOp.mod.apply (Int64.ofInt a) (Int64.ofInt b) = some (Int64.ofInt (a.fmod b)) := by
  have divides := divides_ofInt left right nonzero quotient
  simp only [AffineOp.apply, if_pos divides, toInt_ofInt left, toInt_ofInt right, and_self]

/-- A quotient of a number that is not negative by a positive one is not greater. -/
theorem contains_quotient (left : DType.index.Contains a) (nonneg : 0 ≤ a) (positive : 0 < b) :
    DType.index.Contains (a.fdiv b) := by
  have bound := (fits_index_iff.mp left.fits).2
  have low : 0 ≤ a / b := Int.ediv_nonneg nonneg (Int.le_of_lt positive)
  have high : a / b ≤ a := Int.ediv_le_self b nonneg
  refine ⟨rfl, fits_index_iff.mpr ?_, by decide, by decide⟩
  rw [Int.fdiv_eq_ediv_of_nonneg a (Int.le_of_lt positive)]
  omega

/-- The affine form of an operator has the exact value of the operator. -/
theorem eval_operator {combine : AffineExpr → AffineExpr → AffineExpr} {lhs rhs : AffineExpr}
    {dims symbols : List Int64} (operates : operator? kind = some combine)
    (valued : kind.exactValue? a b = some number) (first : DType.index.Contains a)
    (second : DType.index.Contains b) (result : DType.index.Contains number)
    (left : lhs.eval dims symbols = some (Int64.ofInt a))
    (right : rhs.eval dims symbols = some (Int64.ofInt b)) :
    (combine lhs rhs).eval dims symbols = some (Int64.ofInt number) := by
  have joined {op : AffineOp}
      (applied : op.apply (Int64.ofInt a) (Int64.ofInt b) = some (Int64.ofInt number)) :
      (AffineExpr.combine op lhs rhs).eval dims symbols = some (Int64.ofInt number) :=
    AffineExpr.eval_combine (AffineExpr.eval_binary_eq_some.mpr ⟨_, _, left, right, applied⟩)
  cases kind with
  | add =>
      cases operates
      cases valued
      exact joined (congrArg some (Int64.ofInt_add a b).symm)
  | sub =>
      cases operates
      cases valued
      rw [Int64.ofInt_sub]
      exact AffineExpr.eval_sub left right
  | mul =>
      cases operates
      cases valued
      exact joined (congrArg some (Int64.ofInt_mul a b).symm)
  | floorDiv =>
      cases operates
      simp only [BinaryKind.exactValue?] at valued
      split at valued
      · cases valued
      · rename_i nonzero
        cases valued
        exact joined (apply_division first second nonzero result).1
  | div =>
      cases operates
      simp only [BinaryKind.exactValue?] at valued
      split at valued
      · rename_i signs
        cases valued
        refine joined ?_
        rw [← Int.fdiv_eq_tdiv_of_nonneg signs.1 (Int.le_of_lt signs.2)]
        have quotient := contains_quotient first signs.1 signs.2
        exact (apply_division first second (Int.ne_of_gt signs.2) quotient).1
      · cases valued
  | rem =>
      cases operates
      simp only [BinaryKind.exactValue?] at valued
      split at valued
      · rename_i signs
        cases valued
        refine joined ?_
        rw [← Int.fmod_eq_tmod_of_nonneg signs.1 (Int.le_of_lt signs.2)]
        have quotient := contains_quotient first signs.1 signs.2
        exact (apply_division first second (Int.ne_of_gt signs.2) quotient).2
      · cases valued
  | shl | shr | and | or | xor => cases operates

/-! ## Expressions -/

/-- The affine form of an index expression has its exact value on the loop variables that were
collected; those that were collected before come first. -/
theorem eval_index : ∀ {expr : Expr} {number : Int} {form : AffineExpr}
    {found refs : List LoopRef}, index expr found = .ok form refs →
    expr.exactValue? assignment = some number →
    (∃ more, refs = found ++ more) ∧
      form.eval (words assignment refs) [] = some (Int64.ofInt number)
  | .loopVar id name, number, form, found, refs, read, valued
  | .axis id name _ _, number, form, found, refs, read, valued => by
      rw [index] at read
      obtain ⟨position, middle, slotted, same⟩ := EStateM.bind_eq_ok read
      cases same
      cases valued
      obtain ⟨grown, evaluates⟩ := words_slot slotted
      refine ⟨grown, ?_⟩
      rw [AffineExpr.eval, evaluates, Int64.ofInt_toInt]
  | .constant id dtype (.int value), number, form, found, refs, read, valued => by
      cases read
      obtain ⟨rfl, -⟩ := DType.hold?_eq_some valued
      refine ⟨⟨[], (List.append_nil _).symm⟩, ?_⟩
      rw [AffineExpr.eval, Int64.ofInt_toInt]
  | .cast id dtype source, number, form, found, refs, read, valued => by
      obtain ⟨value, inner, held⟩ := Option.bind_eq_some_iff.mp valued
      obtain ⟨rfl, -⟩ := DType.hold?_eq_some held
      rw [index] at read
      exact eval_index read inner
  | .binary id dtype kind lhs rhs, number, form, found, refs, read, valued => by
      obtain ⟨a, left, valued⟩ := Option.bind_eq_some_iff.mp valued
      obtain ⟨b, right, valued⟩ := Option.bind_eq_some_iff.mp valued
      obtain ⟨value, computed, held⟩ := Option.bind_eq_some_iff.mp valued
      obtain ⟨rfl, result⟩ := DType.hold?_eq_some held
      rw [index] at read
      obtain ⟨leftForm, middle, readLeft, read⟩ := EStateM.bind_eq_ok read
      obtain ⟨rightForm, last, readRight, joined⟩ := EStateM.bind_eq_ok read
      obtain ⟨rfl, ⟨combine, operates, rfl⟩, -⟩ := join_cases joined
      obtain ⟨⟨first, rfl⟩, evalLeft⟩ := eval_index readLeft left
      obtain ⟨⟨second, rfl⟩, evalRight⟩ := eval_index readRight right
      refine ⟨⟨first ++ second, List.append_assoc _ _ _⟩, ?_⟩
      have kept := AffineExpr.eval_append (words assignment second) evalLeft
      rw [← words_append] at kept
      exact eval_operator operates computed (Expr.index_contains_of_exactValue left)
        (Expr.index_contains_of_exactValue right) result.index kept evalRight
  | .constant _ _ (.float _), _, _, _, _, _, valued => by cases valued
  | .unary .., _, _, _, _, _, valued | .compare .., _, _, _, _, _, valued
  | .load .., _, _, _, _, _, valued | .store .., _, _, _, _, _, valued
  | .select .., _, _, _, _, _, valued | .call .., _, _, _, _, _, valued
  | .getBit .., _, _, _, _, _, valued | .reduce .., _, _, _, _, _, valued => by cases valued

end Extraction

end AffineKernel
