import AffineKernel.Build.Access
import AffineKernel.Proofs.Semantics.Comparison
import Mathlib.Data.Int.Bitwise

/-!
# Operators on integers

Over integers without bounds every operator has an exact result, but for a
quotient or remainder by zero: `BinaryKind.exact`. A machine computes in a
register what an operator is lowered to, and then normalizes to the type of the
result. For integers of the type that is the exact result, normalized
(`Arithmetic.onInts_exact`). Three things have to fit for that: the operation
reads its operands with the sign of the type, so that it reads their values; it
rounds as the operator says; and the register holds enough bits of its result.

A type of one bit with a sign is left out. It holds zero and one, and is read as
zero and minus one.
-/

set_option autoImplicit false

namespace AffineKernel

/-! ## Exact results -/

/-- The result of an operator on integers without bounds; shifts have a width, beyond which nothing
but the sign is left. -/
def BinaryKind.exact (kind : BinaryKind) (width : Nat) (a b : Int) : Int :=
  match kind with
  | .add => a + b
  | .sub => a - b
  | .mul => a * b
  | .div => a.tdiv b
  | .floorDiv => a.fdiv b
  | .rem => a - b * a.tdiv b
  | .shl => if 0 ≤ b ∧ b < width then a * 2 ^ b.toNat else 0
  | .shr => if 0 ≤ b ∧ b < width then a.fdiv (2 ^ b.toNat) else if a < 0 then -1 else 0
  | .and => a.land b
  | .or => a.lor b
  | .xor => a.xor b

/-- The types of integers of more than a truth value: with a sign, without one, and `index`. -/
inductive DType.IsCounting : DType → Prop where
  | int {width : Nat} : 2 ≤ width → width ≤ 64 → IsCounting (.int width)
  | uint {width : Nat} : 1 ≤ width → width ≤ 64 → IsCounting (.uint width)
  | index : IsCounting .index

namespace DType.IsCounting

variable {dtype : DType} (counting : dtype.IsCounting)
include counting

theorem category : dtype.category = .int := by
  cases counting <;> rfl

theorem raw : dtype.isFloat = false := by
  cases counting <;> rfl

theorem several : dtype ≠ .bool := by
  intro same
  cases counting with
  | int wide => simp_all
  | _ => cases same

theorem width_le : dtype.width ≤ 64 := by
  cases counting with
  | int _ small => exact small
  | uint _ small => exact small
  | index => exact Nat.le_refl 64

/-- Every operator has an operation on integers. -/
theorem exists_lower (kind : BinaryKind) :
    ∃ op, kind.lower dtype = .ok op ∧ op.isArithmetic = true := by
  cases counting <;> cases kind <;> exact ⟨_, rfl, rfl⟩

end DType.IsCounting

theorem unsigned_nonneg (value : Int) (width : Nat) : 0 ≤ unsigned value width :=
  Int.emod_nonneg value (Int.ne_of_gt (Int.pow_pos (by decide)))

/-! ## Bits -/

theorem getLsbD_ofInt (width : Nat) (value : Int) (position : Nat) :
    (BitVec.ofInt width value).getLsbD position =
      (decide (position < width) && value.testBit position) := by
  cases value with
  | ofNat value =>
      rw [Int.ofNat_eq_natCast, BitVec.ofInt_natCast, BitVec.getLsbD_ofNat]
      rfl
  | negSucc value =>
      rw [BitVec.ofInt_negSucc_eq_not_ofNat, BitVec.getLsbD_not, BitVec.getLsbD_ofNat]
      cases decide (position < width) <;> rfl

namespace Arithmetic

/-- An operation on the bits of two integers, if its result has the low bits that the operation
makes of those of the operands. -/
theorem bitwise_eq {op : BitVec registerWidth → BitVec registerWidth → BitVec registerWidth}
    {a b result : Int} (bits : ∀ position, position < registerWidth →
      (op (BitVec.ofInt registerWidth a) (BitVec.ofInt registerWidth b)).getLsbD position =
        result.testBit position) : bitwise op a b = signed result registerWidth := by
  have same : op (BitVec.ofInt registerWidth a) (BitVec.ofInt registerWidth b) =
      BitVec.ofInt registerWidth result := by
    apply BitVec.eq_of_getLsbD_eq
    intro position inside
    rw [bits position inside, getLsbD_ofInt, decide_eq_true inside, Bool.true_and]
  rw [bitwise, same, BitVec.toInt_ofInt]
  rfl

theorem bitwise_and (a b : Int) : bitwise (· &&& ·) a b = signed (a.land b) registerWidth := by
  apply bitwise_eq
  intro position inside
  simp only [BitVec.getLsbD_and, getLsbD_ofInt, decide_eq_true inside, Bool.true_and, Int.testBit_land]

theorem bitwise_or (a b : Int) : bitwise (· ||| ·) a b = signed (a.lor b) registerWidth := by
  apply bitwise_eq
  intro position inside
  simp only [BitVec.getLsbD_or, getLsbD_ofInt, decide_eq_true inside, Bool.true_and, Int.testBit_lor]

theorem bitwise_xor (a b : Int) : bitwise (· ^^^ ·) a b = signed (a.xor b) registerWidth := by
  apply bitwise_eq
  intro position inside
  simp only [BitVec.getLsbD_xor, getLsbD_ofInt, decide_eq_true inside, Bool.true_and, Int.testBit_lxor]

/-- A register is wide enough for the types of integers. -/
theorem normalize_register {dtype : DType} (small : dtype.width ≤ 64) (value : Int) :
    normalize (signed value registerWidth) dtype = normalize value dtype := by
  apply normalize_congr
  have narrow : (2 : Int) ^ dtype.width ∣ (2 ^ registerWidth : Nat) := by
    push_cast
    exact pow_dvd_pow 2 (Nat.le_trans small (by decide))
  rw [← Int.emod_emod_of_dvd _ narrow, signed, Int.bmod_emod, Int.emod_emod_of_dvd _ narrow]

theorem divide_map (op : Int → Int → Int) (a b : Int) (f : Int → Int) :
    (divide op a b).map f = if b = 0 then .error .divisionByZero else .ok (f (op a b)) := by
  unfold divide
  split <;> rfl

/-- The remainder of a quotient that is cut off toward zero. -/
theorem exact_rem (width : Nat) : BinaryKind.rem.exact width = Int.tmod := by
  funext a b
  exact (Int.tmod_def a b).symm

section Operators

variable {dtype : DType} {kind : BinaryKind} {op : OpKind} {a b : Int}
  (counting : dtype.IsCounting)
include counting

/-- A right shift rounds down and leaves the sign. -/
theorem onInts_shr (lowers : BinaryKind.shr.lower dtype = .ok op)
    (left : (Scalar.int a).Fits dtype) :
    onInts op dtype a b = .ok (BinaryKind.shr.exact dtype.width a b) := by
  have first := dtype.read_fits left counting.several
  have floor : ∀ amount : Nat, a / 2 ^ amount = a.fdiv (2 ^ amount) := by
    intro amount
    rw [Int.fdiv_eq_ediv_of_nonneg a (Int.pow_nonneg (by decide))]
  cases sign : dtype.isUnsigned with
  | false =>
      simp only [DType.read, sign, Bool.false_eq_true, if_false] at first
      simp only [BinaryKind.lower, counting.category, sign] at lowers
      obtain rfl := Except.ok.inj lowers
      simp only [onInts, first, shift, floor, BinaryKind.exact, Bool.false_eq_true, if_false]
  | true =>
      simp only [DType.read, sign, if_true] at first
      simp only [BinaryKind.lower, counting.category, sign] at lowers
      obtain rfl := Except.ok.inj lowers
      have positive : ¬ a < 0 := Int.not_lt.mpr (first ▸ unsigned_nonneg a dtype.width)
      simp only [onInts, first, shift, floor, BinaryKind.exact, if_true, if_neg positive]

variable (lowers : kind.lower dtype = .ok op) (left : (Scalar.int a).Fits dtype)
  (right : (Scalar.int b).Fits dtype)
include lowers left right

/-- A quotient or remainder is that of the integers, and there is none by zero. -/
theorem onInts_divides (divides : Extraction.dividing kind = true) :
    onInts op dtype a b = divide (kind.exact dtype.width) a b := by
  have first := dtype.read_fits left counting.several
  have second := dtype.read_fits right counting.several
  cases sign : dtype.isUnsigned with
  | false =>
      simp only [DType.read, sign, Bool.false_eq_true, if_false] at first second
      cases kind with
      | div | floorDiv =>
          simp only [BinaryKind.lower, counting.category, sign] at lowers
          obtain rfl := Except.ok.inj lowers
          simp only [onInts, first, second, Bool.false_eq_true, if_false]
          rfl
      | rem =>
          simp only [BinaryKind.lower, counting.category, sign] at lowers
          obtain rfl := Except.ok.inj lowers
          simp only [onInts, first, second, exact_rem, Bool.false_eq_true, if_false]
      | _ => cases divides
  | true =>
      simp only [DType.read, sign, if_true] at first second
      have dividend : 0 ≤ a := first ▸ unsigned_nonneg a dtype.width
      have divisor : 0 ≤ b := second ▸ unsigned_nonneg b dtype.width
      cases kind with
      | div | floorDiv =>
          simp only [BinaryKind.lower, counting.category, sign] at lowers
          obtain rfl := Except.ok.inj lowers
          simp only [onInts, first, second, if_true, divide, BinaryKind.exact,
            Int.fdiv_eq_tdiv_of_nonneg dividend divisor]
      | rem =>
          simp only [BinaryKind.lower, counting.category, sign] at lowers
          obtain rfl := Except.ok.inj lowers
          simp only [onInts, first, second, exact_rem, if_true]
      | _ => cases divides

/-- What an operator makes of integers of its type. -/
theorem onInts_exact :
    (onInts op dtype a b).map (normalize · dtype) =
      if Extraction.dividing kind = true ∧ b = 0 then .error .divisionByZero
      else .ok (normalize (kind.exact dtype.width a b) dtype) := by
  cases kind with
  | div | floorDiv | rem =>
      rw [onInts_divides counting lowers left right rfl, divide_map]
      simp only [Extraction.dividing, true_and]
  | shr =>
      rw [onInts_shr counting lowers left]
      rfl
  | add | sub | mul | shl =>
      simp only [BinaryKind.lower, counting.category] at lowers
      obtain rfl := Except.ok.inj lowers
      rfl
  | and | or | xor =>
      simp only [BinaryKind.lower, counting.category] at lowers
      obtain rfl := Except.ok.inj lowers
      simp only [onInts, bitwise_and, bitwise_or, bitwise_xor, Except.map,
        normalize_register counting.width_le]
      rfl

end Operators

end Arithmetic

/-! ## Operations -/

/-- An operation on two values is what an operator on operands of a type is lowered to. -/
structure Module.Operates (module : Module) (kind : BinaryKind) (dtype : DType) (id : OpId)
    (first second : Value) (op : Operation) : Prop where
  found : module.op? id = some op
  lowers : kind.lower dtype = .ok op.kind
  operands : op.operands = [first, second]
  results : op.results = [.scalar dtype]

namespace Machine

variable {module : Module} {run : RunBlock} {id : OpId} {frame : Frame} {machine : Machine}
  {kind : BinaryKind} {dtype : DType} {first second : Value} {op : Operation} {a b : Int}

/-- An operation on integers computes what the arithmetic does, normalized. -/
theorem runOp_onInts (operates : module.Operates kind dtype id first second op)
    (arithmetic : op.kind.isArithmetic = true)
    (left : frame.find? first = some (.scalar (.int a)))
    (right : frame.find? second = some (.scalar (.int b))) :
    runOp module run id frame machine =
      match (Arithmetic.onInts op.kind dtype a b).map (normalize · dtype) with
      | .ok value => .ok (.next (frame.define (.result id 0) (.scalar (.int value)))) machine
      | .error .divisionByZero => .error (.divisionByZero id op.kind) machine
      | .error .overflow => .error (.overflow id op.kind) machine
      | .error .unsupported => .error (.unsupportedOperation op.kind dtype) machine := by
  rw [runOp_arithmetic operates.found arithmetic]
  simp only [defining, Site.arithmetic, Site.resultDType?, operates.operands, operates.results,
    Site.scalar_eq left, Site.scalar_eq right, pure_bind, List.head?_cons, Option.map_some,
    Option.getD_some, ValueType.dtype, Site.binary, Arithmetic.binary]
  cases Arithmetic.onInts op.kind dtype a b with
  | ok value => rfl
  | error error => cases error <;> rfl

/-- **Exact arithmetic.** Every operator has an operation on every type of integers of more than a
truth value. On integers of the type it defines the exact result, normalized to the type, and it
fails exactly for a quotient or remainder by zero. -/
theorem operator_exact (counting : dtype.IsCounting) (kind : BinaryKind) :
    (∃ op, kind.lower dtype = .ok op) ∧
      ∀ (module : Module) (run : RunBlock) (id : OpId) (op : Operation) (first second : Value)
        (frame : Frame) (machine : Machine) (a b : Int),
        module.Operates kind dtype id first second op →
        normalize a dtype = a → frame.find? first = some (.scalar (.int a)) →
        normalize b dtype = b → frame.find? second = some (.scalar (.int b)) →
        runOp module run id frame machine =
          if (kind = .div ∨ kind = .floorDiv ∨ kind = .rem) ∧ b = 0 then
            .error (.divisionByZero id op.kind) machine
          else
            .ok (.next (frame.define (.result id 0)
              (.scalar (.int (normalize (kind.exact dtype.width a b) dtype))))) machine := by
  obtain ⟨lowered, lowers, arithmetic⟩ := counting.exists_lower kind
  refine ⟨⟨lowered, lowers⟩, ?_⟩
  intro module run id op first second frame machine a b operates leftNormal left rightNormal right
  obtain rfl : lowered = op.kind := Except.ok.inj (lowers.symm.trans operates.lowers)
  have exact := Arithmetic.onInts_exact counting lowers ⟨counting.raw, leftNormal⟩
    ⟨counting.raw, rightNormal⟩
  have divides : Extraction.dividing kind = true ↔ kind = .div ∨ kind = .floorDiv ∨ kind = .rem := by
    cases kind <;> simp [Extraction.dividing]
  simp only [divides] at exact
  rw [runOp_onInts operates arithmetic left right, exact]
  by_cases refused : (kind = .div ∨ kind = .floorDiv ∨ kind = .rem) ∧ b = 0
  · rw [if_pos refused, if_pos refused]
  · rw [if_neg refused, if_neg refused]

/-- The least byte, minus one, and their quotient. -/
def leastByte : Module :=
  let first := Module.empty.create
    { kind := .constant
      results := [.scalar (.int 8)]
      attributes := [("value", .int (-128) (.int 8))] } (.atEnd Module.body)
  let second := first.2.create
    { kind := .constant
      results := [.scalar (.int 8)]
      attributes := [("value", .int (-1) (.int 8))] } (.atEnd Module.body)
  (second.2.create
    { kind := .divSI
      operands := [.result first.1 0, .result second.1 0]
      results := [.scalar (.int 8)] } (.atEnd Module.body)).2

def byteFrame : Frame :=
  [⟨[(.result ⟨0⟩ 0, .scalar (.int (-128))), (.result ⟨1⟩ 0, .scalar (.int (-1)))]⟩]

/-- The exact quotient is one more than the greatest byte, and wraps to the least one. -/
theorem leastByte_exact :
    BinaryKind.div.exact 8 (-128) (-1) = 128 ∧
      ∀ (run : RunBlock) (machine : Machine),
        runOp leastByte run ⟨2⟩ byteFrame machine =
          .ok (.next (byteFrame.define (.result ⟨2⟩ 0) (.scalar (.int (-128))))) machine := by
  refine ⟨by decide, ?_⟩
  intro run machine
  have operates : leastByte.Operates .div (.int 8) ⟨2⟩ (.result ⟨0⟩ 0) (.result ⟨1⟩ 0) _ :=
    ⟨rfl, rfl, rfl, rfl⟩
  exact (operator_exact (.int (by decide) (by decide)) .div).2 leastByte run ⟨2⟩ _ _ _ byteFrame
    machine (-128) (-1) operates (by decide) rfl (by decide) rfl

end Machine

end AffineKernel
