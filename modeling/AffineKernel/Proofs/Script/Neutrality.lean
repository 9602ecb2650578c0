import AffineKernel.Proofs.Semantics.Reduction
import AffineKernel.Script.Program

/-!
# Start values of reductions

A reduction stores the constant of its start value in a buffer and combines the
value of its body with what the buffer has. Three things have to read the bits
alike for that: the constant, which comes from the raw range of the type, the
operation that combines, which comes from the category and the sign of the
type, and the machine, which reads the bits once more. They do, at every width
up to 64 bits and at the sign-free words of 64 bits whose greatest number is
the constant -1: the start value is neutral on both sides, and minima and
maxima are those of the numbers (`Machine.identity_neutral`).

They do not for truth values. The range of the type is that from zero to one,
but the operations of minima and maxima read the bit with a sign. So the start
value of a minimum absorbs all others (`Program.leastFlag_absorbed`).
-/

set_option autoImplicit false

namespace AffineKernel

namespace Module

/-- An operation is the constant that a reduction starts from. -/
def Starts (module : Module) (kind : ReduceKind) (dtype : DType) (id : OpId) : Prop :=
  ∃ op, module.op? id = some op ∧ op.kind = .constant ∧ op.results = [.scalar dtype] ∧
    op.attr? "value" = some (kind.identity dtype)

/-- An operation combines two values as a reduction does. -/
def Combines (module : Module) (kind : ReduceKind) (dtype : DType) (id : OpId)
    (first second : Value) : Prop :=
  ∃ op, module.op? id = some op ∧ op.kind = kind.combine dtype ∧ op.operands = [first, second] ∧
    op.results = [.scalar dtype]

end Module

namespace ReduceKind

variable {dtype : DType}

/-- What a kind makes of two integers of a type is one of the type. -/
theorem normalize_apply {kind : ReduceKind} {x y : Int} (extreme : kind ≠ .sum)
    (first : normalize x dtype = x) (second : normalize y dtype = y) :
    normalize (kind.apply x y) dtype = kind.apply x y := by
  cases kind with
  | sum => exact absurd rfl extreme
  | min =>
      rcases Int.le_total x y with le | le
      · rw [apply, Int.min_eq_left le, first]
      · rw [apply, Int.min_eq_right le, second]
  | max =>
      rcases Int.le_total x y with le | le
      · rw [apply, Int.max_eq_right le, second]
      · rw [apply, Int.max_eq_left le, first]

/-- The start value is neutral among the integers of a type. -/
theorem apply_start {kind : ReduceKind} {start : Int} (raw : dtype.isFloat = false)
    (positive : 0 < dtype.width) (small : dtype.width ≤ 64)
    (begins : kind.start? dtype = some start) {x : Int} (fits : (Scalar.int x).Fits dtype) :
    kind.apply start x = x ∧ kind.apply x start = x := by
  obtain ⟨low, high, least, greatest, range⟩ := DType.raw_range raw positive small
  obtain ⟨above, below⟩ := (range x).mp fits
  cases kind with
  | sum =>
      cases begins
      exact ⟨Int.zero_add x, Int.add_zero x⟩
  | min =>
      obtain rfl := Option.some.inj (greatest.symm.trans begins)
      exact ⟨Int.min_eq_right below, Int.min_eq_left below⟩
  | max =>
      obtain rfl := Option.some.inj (least.symm.trans begins)
      exact ⟨Int.max_eq_right above, Int.max_eq_left above⟩

end ReduceKind

namespace Machine

variable {module : Module} {run : RunBlock} {id : OpId} {frame : Frame} {machine : Machine}
  {kind : ReduceKind} {dtype : DType}

theorem starts_defines (starts : module.Starts kind dtype id) :
    Defines module run id frame machine (Meaning.constant dtype (kind.identity dtype)) := by
  obtain ⟨op, found, sort, results, attr⟩ := starts
  exact constant_defines found sort results attr

/-- Two integers of a type are combined by the function of the kind. -/
theorem combines_defines (raw : dtype.isFloat = false) (counts : kind = .sum ∨ dtype ≠ .bool)
    {first second : Value} (combines : module.Combines kind dtype id first second) {x y : Int}
    (left : frame.find? first = some (.scalar (.int x)))
    (right : frame.find? second = some (.scalar (.int y))) (leftFits : (Scalar.int x).Fits dtype)
    (rightFits : (Scalar.int y).Fits dtype) :
    Defines module run id frame machine (.ok (.int (normalize (kind.apply x y) dtype))) := by
  obtain ⟨op, found, sort, operands, results⟩ := combines
  have arithmetic : op.kind.isArithmetic = true := sort ▸ kind.combine_isArithmetic dtype
  have defines : Defines module run id frame machine
      (Meaning.arithmetic op.kind dtype (.int x) (.int y)) :=
    arithmetic_defines found arithmetic results operands left right
  rw [sort] at defines
  have meaning := Meaning.accumulate_int raw counts leftFits rightFits
  rw [Meaning.accumulate] at meaning
  rwa [meaning] at defines

/-- **Neutral start values.** For every kind of reduction and every type of at most 64 bits that is
no float, but for minima and maxima of truth values: the constant that a reduction starts from
defines an integer of the type, and the operation that combines gives back the other operand if one
is this integer. Minima and maxima are those of the integers. -/
theorem identity_neutral (kind : ReduceKind) {dtype : DType} (raw : dtype.isFloat = false)
    (positive : 0 < dtype.width) (small : dtype.width ≤ 64)
    (counts : kind = .sum ∨ dtype ≠ .bool) :
    ∃ start, kind.start? dtype = some start ∧ normalize start dtype = start ∧
      ∀ (module : Module) (run : RunBlock) (id : OpId) (frame : Frame) (machine : Machine),
        (module.Starts kind dtype id → Defines module run id frame machine (.ok (.int start))) ∧
        ∀ (first second : Value) (x y : Int), module.Combines kind dtype id first second →
          normalize x dtype = x → frame.find? first = some (.scalar (.int x)) →
          normalize y dtype = y → frame.find? second = some (.scalar (.int y)) →
          ∃ result, Defines module run id frame machine (.ok (.int result)) ∧
            (x = start → result = y) ∧ (y = start → result = x) ∧
            (kind = .min → result = min x y) ∧ (kind = .max → result = max x y) := by
  obtain ⟨start, begins, known, fits⟩ := Meaning.constant_identity kind raw positive small
  refine ⟨start, begins, fits.2, fun module run id frame machine => ⟨fun starts => ?_, ?_⟩⟩
  · exact known ▸ starts_defines starts
  · intro first second x y combines leftNormal left rightNormal right
    refine ⟨_, combines_defines raw counts combines left right ⟨raw, leftNormal⟩
      ⟨raw, rightNormal⟩, ?_, ?_, ?_, ?_⟩
    · rintro rfl
      rw [(ReduceKind.apply_start raw positive small begins ⟨raw, rightNormal⟩).1, rightNormal]
    · rintro rfl
      rw [(ReduceKind.apply_start raw positive small begins ⟨raw, leftNormal⟩).2, leftNormal]
    · rintro rfl
      exact ReduceKind.normalize_apply (by decide) leftNormal rightNormal
    · rintro rfl
      exact ReduceKind.normalize_apply (by decide) leftNormal rightNormal

/-- The start value of a minimum of words without a sign, five, and the operation that combines
them. -/
def leastWord : Module :=
  let first := Module.empty.create
    { kind := .constant
      results := [.scalar (.uint 64)]
      attributes := [("value", ReduceKind.min.identity (.uint 64))] } (.atEnd Module.body)
  let second := first.2.create
    { kind := .constant
      results := [.scalar (.uint 64)]
      attributes := [("value", .int 5 (.uint 64))] } (.atEnd Module.body)
  (second.2.create
    { kind := .minUI
      operands := [.result first.1 0, .result second.1 0]
      results := [.scalar (.uint 64)] } (.atEnd Module.body)).2

/-- The greatest word, and five. -/
def wordFrame : Frame :=
  [⟨[(.result ⟨0⟩ 0, .scalar (.int 18446744073709551615)), (.result ⟨1⟩ 0, .scalar (.int 5))]⟩]

/-- The start value is the greatest word, though its constant is -1, and leaves five as it is. -/
theorem leastWord_neutral :
    ReduceKind.min.start? (.uint 64) = some 18446744073709551615 ∧
      ∀ (run : RunBlock) (machine : Machine),
        Defines leastWord run ⟨0⟩ wordFrame machine (.ok (.int 18446744073709551615)) ∧
          Defines leastWord run ⟨2⟩ wordFrame machine (.ok (.int 5)) := by
  have starts : leastWord.Starts .min (.uint 64) ⟨0⟩ := ⟨_, rfl, rfl, rfl, rfl⟩
  have combines : leastWord.Combines .min (.uint 64) ⟨2⟩ (.result ⟨0⟩ 0) (.result ⟨1⟩ 0) :=
    ⟨_, rfl, rfl, rfl, rfl⟩
  have raw : (DType.uint 64).isFloat = false := rfl
  obtain ⟨start, begins, normal, neutral⟩ :=
    identity_neutral .min raw (by decide) (by decide) (.inr (by decide))
  obtain rfl : 18446744073709551615 = start := Option.some.inj begins
  refine ⟨rfl, fun run machine => ⟨(neutral leastWord run ⟨0⟩ wordFrame machine).1 starts, ?_⟩⟩
  obtain ⟨result, defines, neutralLeft, -⟩ :=
    (neutral leastWord run ⟨2⟩ wordFrame machine).2 _ _ _ 5 combines normal rfl (by decide) rfl
  obtain rfl : result = 5 := neutralLeft rfl
  exact defines

end Machine

namespace Program

/-- The least of zero at two points, as a truth value. -/
def leastFlag : Program where
  mode := some .deferred
  setting := none
  setup := []
  body := [.function ⟨none, false⟩ "least" [] (some "m")
    [.command ⟨some "x", false⟩ (.make (.constant (.int 0) .bool)),
      .command ⟨some "i", false⟩ (.make (.axis (.const 0) (.const 2) "i")),
      .command ⟨some "m", false⟩ (.make (.reduce .min (.var "x") ["i"]))]]

/-- The module of this function. -/
def leastFlagModule : Module :=
  (Session.runAll leastFlag.body (leastFlag.session .fresh)).2.context.module

/-- The start value of a minimum of truth values is one, and it stays one when zero is combined
with it. -/
theorem leastFlag_absorbed :
    ReduceKind.min.start? .bool = some 1 ∧ normalize 0 .bool = 0 ∧
      (Machine.call leastFlagModule 4 "least" [] .fresh).1.results.toOption.map
        (List.map Scalar.asInt?) = some [some 1] := by
  decide +kernel

end Program

end AffineKernel
