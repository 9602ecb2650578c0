import Mathlib.Algebra.BigOperators.Intervals
import AffineKernel.Proofs.Semantics.Operations
import AffineKernel.Proofs.Semantics.Representatives

/-!
# Bits of integers

A bit access reads an integer without a sign, as the number of its low bits, and
takes one binary digit of it. Adding up the digits of a number with their weights
gives back as many low bits as there are digits (`sum_digits`, by induction on
their number). So the bits of an integer of a type recompose it, up to the
modulus of the type, and outside the width there are none
(`Machine.bits_recompose`).

A kernel brings a position to `index` before it accesses a bit. A position that
does not fit `index` becomes negative and stays outside of every width.
-/

set_option autoImplicit false

namespace AffineKernel

/-! ## Binary digits -/

/-- One more bit is one more digit. -/
theorem emod_two_pow_succ (number : Int) (count : Nat) :
    number % 2 ^ (count + 1) = number % 2 ^ count + 2 ^ count * (number / 2 ^ count % 2) := by
  have halves : number / 2 ^ (count + 1) = number / 2 ^ count / 2 := by
    rw [Int.pow_succ, Int.ediv_ediv_of_nonneg (Int.pow_nonneg (by decide))]
  rw [Int.emod_def, Int.emod_def, Int.emod_def, halves, Int.pow_succ, Int.mul_sub,
    sub_add_sub_cancel, Int.mul_assoc]

/-- The digits of a number, with their weights, are its low bits. -/
theorem sum_digits (number : Int) (count : Nat) :
    ∑ position ∈ Finset.range count, 2 ^ position * (number / 2 ^ position % 2) =
      number % 2 ^ count := by
  induction count with
  | zero => rw [Finset.sum_range_zero, Int.pow_zero, Int.emod_one]
  | succ count ih => rw [Finset.sum_range_succ, ih, emod_two_pow_succ]

/-! ## Bits -/

namespace Arithmetic

variable {value position : Int} {width : Nat}

theorem bit_inside {digit : Nat} (inside : digit < width) :
    bit value digit width = unsigned value width / 2 ^ digit % 2 := by
  rw [bit, if_pos ⟨Int.natCast_nonneg digit, by exact_mod_cast inside⟩, Int.toNat_natCast]

theorem bit_outside (outside : position < 0 ∨ width ≤ position) : bit value position width = 0 := by
  rw [bit, if_neg (by omega)]

theorem bit_eq_zero_or_one (value position : Int) (width : Nat) :
    bit value position width = 0 ∨ bit value position width = 1 := by
  unfold bit
  split
  · exact Int.emod_two_eq _
  · exact .inl rfl

/-- The bits of an integer, with their weights, are the integer without a sign. -/
theorem sum_bits (value : Int) (width : Nat) :
    ∑ position ∈ Finset.range width, 2 ^ position * bit value position width =
      unsigned value width := by
  calc ∑ position ∈ Finset.range width, 2 ^ position * bit value position width
      = ∑ position ∈ Finset.range width,
          2 ^ position * (unsigned value width / 2 ^ position % 2) :=
        Finset.sum_congr rfl fun digit inside => by rw [bit_inside (Finset.mem_range.mp inside)]
    _ = unsigned value width % 2 ^ width := sum_digits _ _
    _ = unsigned value width := Int.emod_emod _ _

/-- A position of up to 64 bits names the same bit when it is brought to a word with a sign. -/
theorem bit_signed (small : width ≤ 64) (low : -2 ^ 63 ≤ position) (high : position < 2 ^ 64) :
    bit value (signed position 64) width = bit value position width := by
  by_cases fits : position < 2 ^ 63
  · rw [(signed_eq_iff (by decide)).mpr ⟨low, by omega⟩]
  · have negative : signed position 64 < 0 := by
      rw [signed, Int.bmod_def]
      omega
    rw [bit_outside (.inl negative), bit_outside (.inr (by omega))]

end Arithmetic

/-- An integer of a type has no more than 64 bits. -/
theorem DType.Valid.bounds {dtype : DType} {value : Int} (valid : dtype.Valid)
    (normal : normalize value dtype = value) : -2 ^ 63 ≤ value ∧ value < 2 ^ 64 := by
  have power {exponent bound : Nat} (le : exponent ≤ bound) : (2 : Int) ^ exponent ≤ 2 ^ bound := by
    exact_mod_cast Nat.pow_le_pow_right (by decide) le
  have small : dtype.width ≤ 64 := valid.2
  unfold normalize at normal
  split at normal
  · obtain ⟨low, high⟩ := unsigned_eq_iff.mp normal
    have bound := power small
    omega
  · obtain ⟨low, high⟩ := (signed_eq_iff valid.1).mp normal
    have bound : (2 : Int) ^ (dtype.width - 1) ≤ 2 ^ 63 := power (by omega)
    omega

/-- A position of any type of integers names the same bit when it is brought to `index`. -/
theorem Arithmetic.bit_bring {source : DType} {value position : Int} {width : Nat}
    (integer : source.isIntegerLike = true) (valid : source.Valid)
    (normal : normalize position source = position) (small : width ≤ 64) :
    bit value (Promotion.bring source .index position) width = bit value position width := by
  have whole : source.fraction = 0 := by
    cases source with
    | int | uint | index => rfl
    | fixed | ufixed | float16 | float32 | float64 => cases integer
  have brought : Promotion.bring source .index position = signed position 64 := by
    rw [Promotion.bring, whole, rescale, if_pos (Nat.zero_le _)]
    simp [normalize, DType.isUnsigned, DType.isBool, DType.fraction, DType.fraction?, DType.width]
  obtain ⟨low, high⟩ := valid.bounds normal
  rw [brought, bit_signed small low high]

/-! ## Bit accesses -/

/-- An operation is an access to a bit of a value of a type. -/
structure Module.TakesBit (module : Module) (dtype : DType) (id : OpId) (value position : Value)
    (op : Operation) : Prop where
  found : module.op? id = some op
  kind : op.kind = .getBit
  operands : op.operands = [value, position]
  typed : module.valueType? value = some (.scalar dtype)

namespace Machine

/-- A bit access defines a bit of the integer that its first operand stands for. -/
theorem runOp_bit {module : Module} {run : RunBlock} {id : OpId} {op : Operation} {frame : Frame}
    {machine : Machine} {dtype : DType} {first second : Value} {value position : Int}
    (takes : module.TakesBit dtype id first second op)
    (left : frame.find? first = some (.scalar (.int value)))
    (right : frame.find? second = some (.scalar (.int position))) :
    runOp module run id frame machine =
      .ok (.next (frame.define (.result id 0)
        (.scalar (.int (Arithmetic.bit value position dtype.width))))) machine := by
  have listed : (site takes.found).op.operands[0]? = some first := by simp [takes.operands]
  have listedBit : (site takes.found).op.operands[1]? = some second := by simp [takes.operands]
  rw [runOp_getBit takes.found takes.kind]
  simp only [defining, Site.getBit, Site.operand_eq listed, Site.operand_eq listedBit,
    Site.int_eq left, Site.int_eq right, Site.operandDType_eq listed takes.typed, pure_bind]
  rfl

/-- **Bits.** The accesses to the bits of an integer of a type define zeros and ones. With their
weights the bits inside the width of the type add up to a number from zero up to the modulus of the
type that is congruent to the integer. Outside the width every bit is zero. A position of any type
of integers names the same bit when it is brought to `index`. -/
theorem bits_recompose {dtype : DType} (valid : dtype.Valid) (value : Int) :
    ∃ bit : Int → Int,
      (∀ (module : Module) (run : RunBlock) (id : OpId) (op : Operation) (first second : Value)
        (frame : Frame) (machine : Machine) (position : Int),
        module.TakesBit dtype id first second op →
        frame.find? first = some (.scalar (.int value)) →
        frame.find? second = some (.scalar (.int position)) →
        runOp module run id frame machine =
          .ok (.next (frame.define (.result id 0) (.scalar (.int (bit position))))) machine) ∧
      (∀ position, bit position = 0 ∨ bit position = 1) ∧
      (∑ position ∈ Finset.range dtype.width, 2 ^ position * bit position) % 2 ^ dtype.width =
        value % 2 ^ dtype.width ∧
      0 ≤ ∑ position ∈ Finset.range dtype.width, 2 ^ position * bit position ∧
      ∑ position ∈ Finset.range dtype.width, 2 ^ position * bit position < 2 ^ dtype.width ∧
      (∀ position : Int, position < 0 ∨ dtype.width ≤ position → bit position = 0) ∧
      ∀ (source : DType) (position : Int), source.isIntegerLike = true → source.Valid →
        normalize position source = position →
        bit (Promotion.bring source .index position) = bit position := by
  have recomposed := Arithmetic.sum_bits value dtype.width
  have modulus : (0 : Int) < 2 ^ dtype.width := Int.pow_pos (by decide)
  refine ⟨fun position => Arithmetic.bit value position dtype.width, ?_,
    fun position => Arithmetic.bit_eq_zero_or_one value position dtype.width, ?_, ?_, ?_,
    fun position => Arithmetic.bit_outside, ?_⟩
  · intro module run id op first second frame machine position takes left right
    exact runOp_bit takes left right
  · rw [recomposed]
    exact Int.emod_emod _ _
  · rw [recomposed]
    exact Int.emod_nonneg value modulus.ne'
  · rw [recomposed]
    exact Int.emod_lt_of_pos value modulus
  · intro source position integer valid' normal
    exact Arithmetic.bit_bring integer valid' normal valid.2

/-- A byte and an access to one of its bits. -/
def byteBit : Module :=
  let constant (value : Int64) (type : DType) : OpDraft :=
    { kind := .constant
      results := [.scalar type]
      attributes := [("value", .int value type)] }
  let byte := Module.empty.create (constant (-123) (.int 8)) (.atEnd Module.body)
  let position := byte.2.create (constant 7 .index) (.atEnd Module.body)
  (position.2.create
    { kind := .getBit
      operands := [.result byte.1 0, .result position.1 0]
      results := [.scalar .bool] } (.atEnd Module.body)).2

def bitFrame (position : Int) : Frame :=
  [⟨[(.result ⟨0⟩ 0, .scalar (.int (-123))), (.result ⟨1⟩ 0, .scalar (.int position))]⟩]

/-- The bits of minus one hundred and twenty-three, with their weights, are the byte without a sign.
There are none below the first and far above the last. -/
theorem byteBit_recompose :
    (DType.int 8).Valid ∧ ∃ bit : Int → Int,
      (∀ (run : RunBlock) (machine : Machine) (position : Int),
        runOp byteBit run ⟨2⟩ (bitFrame position) machine =
          .ok (.next ((bitFrame position).define (.result ⟨2⟩ 0) (.scalar (.int (bit position)))))
            machine) ∧
      ∑ position ∈ Finset.range 8, 2 ^ position * bit position = 133 ∧
      bit (-1) = 0 ∧ bit (2 ^ 100) = 0 := by
  have valid : (DType.int 8).Valid := by decide
  obtain ⟨bit, runs, -, congruent, low, high, outside, -⟩ := bits_recompose valid (-123)
  have takes : byteBit.TakesBit (.int 8) ⟨2⟩ (.result ⟨0⟩ 0) (.result ⟨1⟩ 0) _ :=
    ⟨rfl, rfl, rfl, rfl⟩
  refine ⟨valid, bit, fun run machine position => ?_, ?_, outside (-1) (by decide),
    outside (2 ^ 100) (by decide)⟩
  · exact runs byteBit run ⟨2⟩ _ _ _ (bitFrame position) machine position takes rfl rfl
  · simp only [DType.width] at congruent low high
    omega

end Machine

end AffineKernel
