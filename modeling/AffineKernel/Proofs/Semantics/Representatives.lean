import AffineKernel.Proofs.Semantics.Reduction
import AffineKernel.Proofs.Semantics.Typing

/-!
# Representatives of integers

The raw range of a type is given by bounds, with `int1` and `index` set apart;
normalization is given by low bits that are read with a sign or without one. The
two describe the same set for every type of integers or fixed point numbers. Its
range has one integer for each pattern of bits (`DType.raw_span`), and
normalization yields the one that has the low bits of its argument
(`normalize_representative`). A conversion to another type brings the number of
bits after the point to that of the type and normalizes (`Promotion.bring`).
-/

set_option autoImplicit false

namespace AffineKernel

/-- A type of integers or fixed point numbers that a kernel can have: its width is that of a word at
most, and not zero, and its point is inside. -/
structure DType.IsRaw (dtype : DType) : Prop where
  raw : dtype.isFloat = false
  valid : dtype.Valid
  point : dtype.fraction ≤ dtype.width

/-! ## Ranges -/

theorem two_pow_pred {width : Nat} (positive : 0 < width) :
    (2 : Int) ^ width = 2 ^ (width - 1) + 2 ^ (width - 1) := by
  obtain ⟨half, rfl⟩ := Nat.exists_eq_succ_of_ne_zero (Nat.pos_iff_ne_zero.mp positive)
  rw [Nat.succ_sub_one, Int.pow_succ]
  omega

namespace DType

variable {dtype : DType} {low high : Int} (isRaw : dtype.IsRaw)
include isRaw

/-- A range has as many integers as the bits of the type can tell apart. -/
theorem raw_span (least : dtype.rawMin? = some low) (greatest : dtype.rawMax? = some high) :
    high - low + 1 = 2 ^ dtype.width := by
  have narrow : ¬ dtype.width > maxIntWidth := Nat.not_lt.mpr isRaw.valid.2
  have double := two_pow_pred isRaw.valid.1
  simp only [rawMin?, rawMax?, if_neg narrow] at least greatest
  cases dtype with
  | int width =>
      by_cases one : width = 1
      · subst one
        cases least
        cases greatest
        rfl
      · have lowest : low = -2 ^ (width - 1) := by split at least <;> simp_all
        have highest : high = 2 ^ (width - 1) - 1 := by split at greatest <;> simp_all
        simp only [DType.width] at double ⊢
        omega
  | fixed width fraction =>
      cases least
      cases greatest
      simp only [DType.width] at double ⊢
      omega
  | uint width | ufixed width fraction =>
      cases least
      cases greatest
      simp only [DType.width]
      omega
  | index =>
      cases least
      cases greatest
      rfl
  | float16 | float32 | float64 => cases isRaw.raw

/-- The integers of a range are those that normalization leaves as they are. -/
theorem IsRaw.range :
    ∃ low high, dtype.rawMin? = some low ∧ dtype.rawMax? = some high ∧
      ∀ value, normalize value dtype = value ↔ low ≤ value ∧ value ≤ high := by
  obtain ⟨low, high, least, greatest, range⟩ := raw_range isRaw.raw isRaw.valid.1 isRaw.valid.2
  refine ⟨low, high, least, greatest, fun value => ?_⟩
  rw [← range]
  exact ⟨fun normal => ⟨isRaw.raw, normal⟩, fun fits => fits.2⟩

end DType

/-! ## Representatives -/

/-- **Representatives.** The range of a type of integers or fixed point numbers has as many integers
as its bits can tell apart. What normalization makes of an integer is in the range and congruent to
it modulo the number of these integers, and it is the only one; so the integers of the range are
those that stay as they are. -/
theorem normalize_representative {dtype : DType} (isRaw : dtype.IsRaw) :
    ∃ low high, dtype.rawMin? = some low ∧ dtype.rawMax? = some high ∧
      high - low + 1 = 2 ^ dtype.width ∧
      ∀ value : Int,
        (low ≤ normalize value dtype ∧ normalize value dtype ≤ high) ∧
        normalize value dtype % 2 ^ dtype.width = value % 2 ^ dtype.width ∧
        (∀ other, low ≤ other → other ≤ high →
          other % 2 ^ dtype.width = value % 2 ^ dtype.width → other = normalize value dtype) ∧
        (normalize value dtype = value ↔ low ≤ value ∧ value ≤ high) := by
  obtain ⟨low, high, least, greatest, range⟩ := isRaw.range
  refine ⟨low, high, least, greatest, DType.raw_span isRaw least greatest, fun value => ?_⟩
  refine ⟨(range _).mp (normalize_normalize value dtype), normalize_emod value dtype, ?_,
    range value⟩
  intro other above below same
  calc other = normalize other dtype := ((range other).mpr ⟨above, below⟩).symm
    _ = normalize value dtype := normalize_congr same

/-- A truth value is read without a sign: all bits set stand for one. -/
theorem flag_representative : DType.bool.IsRaw ∧ normalize (-1) .bool = 1 := by
  have isRaw : DType.bool.IsRaw := ⟨rfl, by decide, by decide⟩
  obtain ⟨low, high, least, greatest, -, representative⟩ := normalize_representative isRaw
  obtain rfl : 0 = low := Option.some.inj least
  obtain rfl : 1 = high := Option.some.inj greatest
  obtain ⟨-, -, unique, -⟩ := representative (-1)
  exact ⟨isRaw, (unique 1 (by decide) (by decide) (by decide)).symm⟩

/-! ## Integers of other types -/

/-- An integer of one type as one of another type, as a cast makes it. -/
def Promotion.bring (source target : DType) (value : Int) : Int :=
  normalize (rescale value source.fraction target.fraction) target

theorem Scalar.convert_int {source target : DType} (rawSource : source.isFloat = false)
    (rawTarget : target.isFloat = false) (value : Int) :
    (Scalar.int value).convert source target = .int (Promotion.bring source target value) := by
  cases source with
  | float16 | float32 | float64 => cases rawSource
  | _ =>
      cases target with
      | float16 | float32 | float64 => cases rawTarget
      | _ => rfl

theorem Scalar.convert_self {dtype : DType} {value : Int} (fits : (Scalar.int value).Fits dtype) :
    (Scalar.int value).convert dtype dtype = .int value := by
  rw [convert_int fits.1 fits.1, Promotion.bring, rescale, if_pos (Nat.le_refl _)]
  simpa using fits.2

end AffineKernel
