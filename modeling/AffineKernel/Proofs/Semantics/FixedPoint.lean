import AffineKernel.Proofs.Semantics.Conversions
import AffineKernel.Proofs.Semantics.Integers

/-!
# Products and quotients of fixed point numbers

The product of two raw integers has twice as many bits after the point as the
type, and half of them are dropped; a dividend is given as many bits more before
the division. A register holds all bits of the type that are left of a product,
even if it does not hold the product (`normalize_register_div`). So products are
those of the integers without bounds, rounded down and normalized.

A register also holds the dividend, but for one type: that of 64 bits without a
sign, all of them after the point. Its numbers from one half on are shifted into
the sign of the register. Quotients are those of the integers without bounds,
rounded toward zero and normalized, but for these dividends
(`Machine.fixedPoint_exact`), and they are wrong for them
(`Machine.halves_divided_wrong`). The quotient of the least dividend that a
register holds by minus one is left out as well: it is one more than the
greatest integer that the register holds.
-/

set_option autoImplicit false

namespace AffineKernel

variable {dtype : DType}

/-! ## Registers -/

/-- A register holds an integer up to a multiple of the number of its patterns. -/
theorem wrapRegister_eq_add (value : Int) :
    ∃ turns, wrapRegister value = value + 2 ^ registerWidth * turns := by
  refine ⟨-value.bdiv (2 ^ registerWidth), ?_⟩
  rw [wrapRegister, signed, Int.bmod_eq_self_sub_mul_bdiv, Int.mul_neg, ← Int.sub_eq_add_neg]
  push_cast
  rfl

/-- A register holds what is in its range. -/
theorem wrapRegister_of_mem {value : Int} (least : registerMin ≤ value)
    (greatest : value ≤ registerMax) : wrapRegister value = value := by
  simp only [registerMin, registerMax] at least greatest
  refine Int.bmod_eq_of_le ?_ ?_ <;> simp only [registerWidth] <;> omega

/-- After a shift down by the bits after the point, the bits of the type are still those of the
register. -/
theorem normalize_register_div (isRaw : dtype.IsRaw) (value : Int) :
    normalize (wrapRegister value / 2 ^ dtype.fraction) dtype =
      normalize (value / 2 ^ dtype.fraction) dtype := by
  have point := isRaw.point
  have small : dtype.width ≤ 64 := isRaw.valid.2
  have split : registerWidth =
      dtype.fraction + (dtype.width + (128 - dtype.fraction - dtype.width)) := by
    simp only [registerWidth]
    omega
  obtain ⟨turns, wrapped⟩ := wrapRegister_eq_add value
  have shifted : wrapRegister value / 2 ^ dtype.fraction = value / 2 ^ dtype.fraction +
      2 ^ dtype.width * (2 ^ (128 - dtype.fraction - dtype.width) * turns) := by
    rw [wrapped, split, Int.pow_add, Int.pow_add, Int.mul_assoc, Int.mul_assoc,
      Int.add_mul_ediv_left _ _ (Int.ne_of_gt (Int.pow_pos (by decide)))]
  apply normalize_congr
  rw [shifted, Int.add_mul_emod_self_left]

/-- The product of an integer and a power of two, from bounds of both. -/
theorem mul_two_pow_mem (greatest : Int) (most : Nat) {value : Int} {shift : Nat}
    (nonneg : 0 ≤ greatest) (above : -2 ^ 63 ≤ value) (below : value ≤ greatest)
    (few : shift ≤ most) (wide : most ≤ 64) (fits : greatest * 2 ^ most ≤ registerMax) :
    registerMin ≤ value * 2 ^ shift ∧ value * 2 ^ shift ≤ registerMax := by
  have positive : (0 : Int) < 2 ^ shift := Int.pow_pos (by decide)
  have power : (2 : Int) ^ shift ≤ 2 ^ most := pow_le_pow_right₀ (by decide) few
  have largest : (2 : Int) ^ shift ≤ 2 ^ 64 := pow_le_pow_right₀ (by decide) (by omega)
  constructor
  · calc registerMin = -2 ^ 63 * 2 ^ 64 := by decide
      _ ≤ -2 ^ 63 * 2 ^ shift := Int.mul_le_mul_of_nonpos_left (by decide) largest
      _ ≤ value * 2 ^ shift := Int.mul_le_mul_of_nonneg_right above (Int.le_of_lt positive)
  · calc value * 2 ^ shift ≤ greatest * 2 ^ shift :=
          Int.mul_le_mul_of_nonneg_right below (Int.le_of_lt positive)
      _ ≤ greatest * 2 ^ most := Int.mul_le_mul_of_nonneg_left power nonneg
      _ ≤ registerMax := fits

/-- A register holds every scaled dividend, but for those from one half on of the type without a
sign whose 64 bits are all after the point. -/
theorem wrapRegister_scaled (isRaw : dtype.IsRaw) (isFixed : dtype.isFixed = true) {value : Int}
    (normal : normalize value dtype = value) (half : dtype = .ufixed 64 64 → value < 2 ^ 63) :
    wrapRegister (value * 2 ^ dtype.fraction) = value * 2 ^ dtype.fraction := by
  have positive := isRaw.valid.1
  have small : dtype.width ≤ 64 := isRaw.valid.2
  have point := isRaw.point
  suffices mem : registerMin ≤ value * 2 ^ dtype.fraction ∧
      value * 2 ^ dtype.fraction ≤ registerMax from wrapRegister_of_mem mem.1 mem.2
  cases dtype with
  | fixed width fraction =>
      obtain ⟨above, below⟩ := (signed_eq_iff positive).mp normal
      have power : (2 : Int) ^ (width - 1) ≤ 2 ^ 63 :=
        pow_le_pow_right₀ (by decide) (Nat.sub_le_of_le_add small)
      simp only [DType.width] at above below
      exact mul_two_pow_mem (2 ^ 63 - 1) 64 (by decide) (by omega) (by omega)
        (Nat.le_trans point small) (Nat.le_refl 64) (by decide)
  | ufixed width fraction =>
      obtain ⟨above, below⟩ := unsigned_eq_iff.mp normal
      have power : (2 : Int) ^ width ≤ 2 ^ 64 := pow_le_pow_right₀ (by decide) small
      simp only [DType.width, DType.fraction, DType.fraction?, Option.getD_some]
        at small point above below ⊢
      by_cases whole : fraction = 64
      · obtain rfl : width = 64 := by omega
        subst whole
        have below := half rfl
        exact mul_two_pow_mem (2 ^ 63 - 1) 64 (by decide) (by omega) (by omega)
          (Nat.le_refl 64) (Nat.le_refl 64) (by decide)
      · exact mul_two_pow_mem (2 ^ 64 - 1) 63 (by decide) (by omega) (by omega)
          (by omega) (by decide) (by decide)
  | _ => cases isFixed

/-- The least register is a scaled dividend of one type with a sign only. -/
theorem eq_of_scaled_registerMin {width fraction : Nat} {value : Int} (small : width ≤ 64)
    (point : fraction ≤ width) (above : -2 ^ 63 ≤ value)
    (scaled : value * 2 ^ fraction = registerMin) :
    width = 64 ∧ fraction = 64 ∧ value = -2 ^ 63 := by
  have all : 64 ≤ fraction := by
    by_contra few
    have power : (2 : Int) ^ fraction ≤ 2 ^ 63 := pow_le_pow_right₀ (by decide) (by omega)
    have least : registerMin < value * 2 ^ fraction := calc
      registerMin < -2 ^ 63 * 2 ^ 63 := by decide
      _ ≤ -2 ^ 63 * 2 ^ fraction := Int.mul_le_mul_of_nonpos_left (by decide) power
      _ ≤ value * 2 ^ fraction :=
          Int.mul_le_mul_of_nonneg_right above (Int.le_of_lt (Int.pow_pos (by decide)))
    exact absurd scaled (Int.ne_of_gt least)
  obtain rfl : fraction = 64 := by omega
  refine ⟨by omega, rfl, ?_⟩
  rw [registerMin] at scaled
  omega

/-- The dividends that are brought up to the least register: the least number of the type with a
sign whose 64 bits are all after the point, and one half of the type without. -/
theorem eq_of_wrapRegister_eq_registerMin (isRaw : dtype.IsRaw) (isFixed : dtype.isFixed = true)
    {value : Int} (normal : normalize value dtype = value)
    (least : wrapRegister (value * 2 ^ dtype.fraction) = registerMin) :
    dtype = .fixed 64 64 ∧ value = -2 ^ 63 ∨ dtype = .ufixed 64 64 ∧ value = 2 ^ 63 := by
  cases dtype with
  | fixed width fraction =>
      have scaled := wrapRegister_scaled isRaw isFixed normal nofun
      have above := ((signed_eq_iff isRaw.valid.1).mp normal).1
      have power : (2 : Int) ^ (width - 1) ≤ 2 ^ 63 :=
        pow_le_pow_right₀ (by decide) (Nat.sub_le_of_le_add isRaw.valid.2)
      simp only [DType.width] at above
      obtain ⟨rfl, rfl, rfl⟩ := eq_of_scaled_registerMin isRaw.valid.2 isRaw.point (by omega)
        (scaled.symm.trans least)
      exact .inl ⟨rfl, rfl⟩
  | ufixed width fraction =>
      obtain ⟨nonneg, below⟩ := unsigned_eq_iff.mp normal
      by_cases whole : DType.ufixed width fraction = .ufixed 64 64
      · cases whole
        obtain ⟨multiple, wraps⟩ := wrapRegister_eq_add (value * 2 ^ 64)
        have same : value * 2 ^ 64 + 2 ^ 128 * multiple = registerMin := wraps.symm.trans least
        simp only [DType.width] at below
        rw [registerMin] at same
        exact .inr ⟨rfl, by omega⟩
      · have scaled := wrapRegister_scaled isRaw isFixed normal fun same => absurd same whole
        have positive : 0 ≤ value * 2 ^ (DType.ufixed width fraction).fraction :=
          Int.mul_nonneg nonneg (Int.le_of_lt (Int.pow_pos (by decide)))
        rw [← scaled, least] at positive
        exact absurd positive (by decide)
  | _ => cases isFixed

/-- The quotient of the least register by minus one is too large for one. -/
theorem divFixed_overflow {a b : Int}
    (overflows : Arithmetic.onInts .divFixed dtype a b = .error .overflow) :
    wrapRegister (a * 2 ^ dtype.fraction) = registerMin ∧ b = -1 := by
  rw [Arithmetic.onInts, Arithmetic.divideRegister] at overflows
  split at overflows
  · cases overflows
  split at overflows
  · assumption
  · cases overflows

/-- The only quotient of fixed point numbers of one type that no register holds: that of the least
number by minus one, of the type with a sign whose 64 bits are all after the point. -/
theorem divFixed_overflows_iff (isRaw : dtype.IsRaw) (isFixed : dtype.isFixed = true) {a b : Int}
    (normalLeft : normalize a dtype = a) (normalRight : normalize b dtype = b) :
    Arithmetic.onInts .divFixed dtype a b = .error .overflow ↔
      dtype = .fixed 64 64 ∧ a = -2 ^ 63 ∧ b = -1 := by
  constructor
  · intro overflows
    obtain ⟨least, minus⟩ := divFixed_overflow overflows
    rcases eq_of_wrapRegister_eq_registerMin isRaw isFixed normalLeft least with
      ⟨rfl, rfl⟩ | ⟨rfl, rfl⟩
    · exact ⟨rfl, rfl, minus⟩
    · have nonneg := (unsigned_eq_iff.mp normalRight).1
      omega
  · rintro ⟨rfl, rfl, rfl⟩
    rfl

/-! ## Operations -/

theorem BinaryKind.lower_fixed (isFixed : dtype.isFixed = true) :
    BinaryKind.mul.lower dtype = .ok .mulFixed ∧ BinaryKind.div.lower dtype = .ok .divFixed := by
  cases dtype with
  | fixed | ufixed => exact ⟨rfl, rfl⟩
  | _ => cases isFixed

theorem floor_div_two_pow (value : Int) (shift : Nat) :
    ⌊(value : ℚ) / 2 ^ shift⌋ = value / 2 ^ shift := by
  have quotient := Rat.floor_intCast_div_natCast value (2 ^ shift)
  push_cast at quotient
  exact quotient

namespace Machine

/-- **Products and quotients of fixed point numbers.** On raw integers of a type of fixed point
numbers, the product is the exact one, without the bits after the point that the type does not have,
rounded down and normalized. A quotient by zero fails. Any other one is the exact quotient of the
dividend, with as many bits more as the type has after the point, rounded toward zero and
normalized. Left out are the dividends from one half on of the type without a sign whose 64 bits are
all after the point, and the quotient of the least integer by minus one, of the type with a sign. -/
theorem fixedPoint_exact {dtype : DType} (isRaw : dtype.IsRaw) (isFixed : dtype.isFixed = true) :
    ∀ (module : Module) (run : RunBlock) (id : OpId) (op : Operation) (first second : Value)
      (frame : Frame) (machine : Machine) (a b : Int),
      normalize a dtype = a → frame.find? first = some (.scalar (.int a)) →
      normalize b dtype = b → frame.find? second = some (.scalar (.int b)) →
      (module.Operates .mul dtype id first second op →
        op.kind = .mulFixed ∧
          runOp module run id frame machine =
            .ok (.next (frame.define (.result id 0)
              (.scalar (.int (normalize ⌊((a * b : ℤ) : ℚ) / 2 ^ dtype.fraction⌋ dtype)))))
              machine) ∧
      (module.Operates .div dtype id first second op →
        op.kind = .divFixed ∧
          (b = 0 →
            runOp module run id frame machine = .error (.divisionByZero id .divFixed) machine) ∧
          (b ≠ 0 → (dtype = .ufixed 64 64 → a < 2 ^ 63) →
            (dtype = .fixed 64 64 → a = -2 ^ 63 → b ≠ -1) →
            runOp module run id frame machine =
              .ok (.next (frame.define (.result id 0)
                (.scalar (.int (normalize ((a * 2 ^ dtype.fraction).tdiv b) dtype))))) machine)) := by
  obtain ⟨product, quotient⟩ := BinaryKind.lower_fixed isFixed
  intro module run id op first second frame machine a b normal left normalRight right
  constructor
  · intro operates
    have kind : op.kind = .mulFixed := Except.ok.inj (operates.lowers.symm.trans product)
    refine ⟨kind, ?_⟩
    rw [runOp_onInts operates (by rw [kind]; rfl) left right, kind, floor_div_two_pow,
      ← normalize_register_div isRaw]
    rfl
  · intro operates
    have kind : op.kind = .divFixed := Except.ok.inj (operates.lowers.symm.trans quotient)
    have computes : runOp module run id frame machine = _ :=
      runOp_onInts operates (by rw [kind]; rfl) left right
    rw [kind] at computes
    refine ⟨kind, fun zero => ?_, fun nonzero half corner => ?_⟩
    · rw [computes, Arithmetic.onInts, Arithmetic.divideRegister, if_pos zero]
      rfl
    · have held : ¬ (wrapRegister (a * 2 ^ dtype.fraction) = registerMin ∧ b = -1) := by
        intro least
        have overflows : Arithmetic.onInts .divFixed dtype a b = .error .overflow := by
          rw [Arithmetic.onInts, Arithmetic.divideRegister, if_neg nonzero, if_pos least]
        obtain ⟨type, dividend, divisor⟩ :=
          (divFixed_overflows_iff isRaw isFixed normal normalRight).mp overflows
        exact corner type dividend divisor
      rw [computes, Arithmetic.onInts, Arithmetic.divideRegister, if_neg nonzero, if_neg held,
        wrapRegister_scaled isRaw isFixed normal half]
      rfl

/-- Two numbers of 64 bits, all after the point, with their product and their quotient. -/
def fractions (a b : Int64) : Module :=
  let constant (value : Int64) : OpDraft :=
    { kind := .constant
      results := [.scalar (.ufixed 64 64)]
      attributes := [("value", .int value (.ufixed 64 64))] }
  let first := Module.empty.create (constant a) (.atEnd Module.body)
  let second := first.2.create (constant b) (.atEnd Module.body)
  let operation (kind : OpKind) : OpDraft :=
    { kind
      operands := [.result first.1 0, .result second.1 0]
      results := [.scalar (.ufixed 64 64)] }
  let product := second.2.create (operation .mulFixed) (.atEnd Module.body)
  (product.2.create (operation .divFixed) (.atEnd Module.body)).2

/-- The raw integers of the two numbers. -/
def fractionFrame (a b : Int) : Frame :=
  [⟨[(.result ⟨0⟩ 0, .scalar (.int a)), (.result ⟨1⟩ 0, .scalar (.int b))]⟩]

/-- The square of the greatest number is more than a register holds, and is exact. Three eighths are
divided by seven eighths. -/
theorem fractions_exact :
    (2 ^ 127 : Int) < 18446744073709551615 * 18446744073709551615 ∧
      ∀ (run : RunBlock) (machine : Machine),
        runOp (fractions (-1) (-1)) run ⟨2⟩
            (fractionFrame 18446744073709551615 18446744073709551615) machine =
          .ok (.next ((fractionFrame 18446744073709551615 18446744073709551615).define
            (.result ⟨2⟩ 0) (.scalar (.int 18446744073709551614)))) machine ∧
        runOp (fractions 6917529027641081856 (-2305843009213693952)) run ⟨3⟩
            (fractionFrame 6917529027641081856 16140901064495857664) machine =
          .ok (.next ((fractionFrame 6917529027641081856 16140901064495857664).define
            (.result ⟨3⟩ 0) (.scalar (.int 7905747460161236406)))) machine := by
  have isRaw : (DType.ufixed 64 64).IsRaw := ⟨rfl, by decide, by decide⟩
  refine ⟨by decide, fun run machine => ⟨?_, ?_⟩⟩
  · have operates : (fractions (-1) (-1)).Operates .mul (.ufixed 64 64) ⟨2⟩ (.result ⟨0⟩ 0)
        (.result ⟨1⟩ 0) _ := ⟨rfl, rfl, rfl, rfl⟩
    have exact := (fixedPoint_exact isRaw rfl _ run ⟨2⟩ _ _ _
      (fractionFrame 18446744073709551615 18446744073709551615) machine _ _ (by decide) rfl
      (by decide) rfl).1 operates
    rw [exact.2, floor_div_two_pow]
    rfl
  · have operates : (fractions 6917529027641081856 (-2305843009213693952)).Operates .div
        (.ufixed 64 64) ⟨3⟩ (.result ⟨0⟩ 0) (.result ⟨1⟩ 0) _ := ⟨rfl, rfl, rfl, rfl⟩
    have exact := (fixedPoint_exact isRaw rfl _ run ⟨3⟩ _ _ _
      (fractionFrame 6917529027641081856 16140901064495857664) machine _ _ (by decide) rfl
      (by decide) rfl).2 operates
    rw [exact.2.2 (by decide) (fun _ => by decide) nofun]
    rfl

/-- Three quarters divided by seven eighths are six sevenths, and come out as less. -/
theorem halves_divided_wrong :
    normalize ((13835058055282163712 * 2 ^ 64 : Int).tdiv 16140901064495857664) (.ufixed 64 64) =
        15811494920322472813 ∧
      ∀ (run : RunBlock) (machine : Machine),
        runOp (fractions (-4611686018427387904) (-2305843009213693952)) run ⟨3⟩
            (fractionFrame 13835058055282163712 16140901064495857664) machine =
          .ok (.next ((fractionFrame 13835058055282163712 16140901064495857664).define
            (.result ⟨3⟩ 0) (.scalar (.int 13176245766935394012)))) machine := by
  have operates : (fractions (-4611686018427387904) (-2305843009213693952)).Operates .div
      (.ufixed 64 64) ⟨3⟩ (.result ⟨0⟩ 0) (.result ⟨1⟩ 0) _ := ⟨rfl, rfl, rfl, rfl⟩
  refine ⟨by decide, fun run machine => ?_⟩
  rw [runOp_onInts operates rfl rfl rfl]
  rfl

end Machine

end AffineKernel
