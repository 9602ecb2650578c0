import Mathlib.Data.Rat.Floor
import AffineKernel.Proofs.Semantics.Representatives
import AffineKernel.Proofs.Semantics.RowMajor

/-!
# Conversions of integers

A conversion between types of integers or fixed point numbers brings the number
of bits after the point to that of the other type, rounding down, and then
normalizes (`Promotion.bring`). So it yields the floor of the number that the raw
integer is rescaled to, and if no bits are taken away after the point and the
rescaled integer is in the range of the other type, the conversion back yields
the integer again (`Scalar.convert_rescales`). A buffer that is made of words
gives back those that fit its element type once they are scaled.
-/

set_option autoImplicit false

namespace AffineKernel

/-! ## Rescaling -/

section Rescale

variable {source target : Nat}

theorem rescale_of_le (le : source ≤ target) (value : Int) :
    rescale value source target = value * 2 ^ (target - source) := if_pos le

/-- An integer is rescaled by the quotient of two powers of two, rounded down. -/
theorem rescale_eq_floor (value : Int) (source target : Nat) :
    rescale value source target = ⌊(value : ℚ) * 2 ^ ((target : ℤ) - source)⌋ := by
  unfold rescale
  split
  · rename_i le
    have exponent : (target : ℤ) - source = ((target - source : Nat) : ℤ) := by omega
    have product : (value : ℚ) * 2 ^ (target - source) =
        ((value * 2 ^ (target - source) : ℤ) : ℚ) := by
      push_cast
      rfl
    rw [exponent, zpow_natCast, product, Int.floor_intCast]
  · rename_i lt
    have exponent : (target : ℤ) - source = -((source - target : Nat) : ℤ) := by omega
    have quotient := Rat.floor_intCast_div_natCast value (2 ^ (source - target))
    push_cast at quotient
    rw [exponent, zpow_neg, zpow_natCast, ← div_eq_mul_inv]
    exact quotient.symm

/-- Bits that were added after the point are all that is taken away on the way back. -/
theorem rescale_rescale (le : source ≤ target) (value : Int) :
    rescale (rescale value source target) target source = value := by
  have positive : (0 : Int) < 2 ^ (target - source) := Int.pow_pos (by decide)
  rw [rescale_of_le le, rescale]
  split
  · rename_i ge
    obtain rfl := Nat.le_antisymm le ge
    simp
  · exact Int.mul_ediv_cancel value (Int.ne_of_gt positive)

end Rescale

/-! ## Conversions -/

/-- The way to a type with more bits after the point and back, through an integer of that type. -/
theorem Scalar.convert_convert {source target : DType} {value : Int}
    (fits : (Scalar.int value).Fits source) (le : source.fraction ≤ target.fraction)
    (scaledFits : (Scalar.int (value * 2 ^ (target.fraction - source.fraction))).Fits target) :
    ((Scalar.int value).convert source target).convert target source = .int value := by
  have scaled := rescale_of_le le value
  have brought : Promotion.bring source target value =
      rescale value source.fraction target.fraction := by
    rw [Promotion.bring, scaled]
    exact scaledFits.2
  rw [convert_int fits.1 scaledFits.1, convert_int scaledFits.1 fits.1, brought, Promotion.bring,
    rescale_rescale le, fits.2]

namespace Buffer

variable {shape : List Nat} {element : DType} {values : List Int64} {position : Nat}
  {value : Int64}

/-- An element of a buffer that is made of words is its word, converted. -/
theorem ofInts_data (inside : position < extentProduct shape)
    (known : values[position]? = some value) :
    (ofInts shape element values).data[position]? =
      some ((Scalar.int value.toInt).convert .int64 element) := by
  rw [ofInts, ofScalars_data _ inside, List.getElem?_map, known, Option.map_some, Option.getD_some]

/-- A word that fits the element type once it is scaled is given back. -/
theorem toInts_ofInts (inside : position < extentProduct shape)
    (known : values[position]? = some value)
    (fits : (Scalar.int (value.toInt * 2 ^ element.fraction)).Fits element) :
    (ofInts shape element values).toInts[position]? = some value.toInt := by
  have word : (Scalar.int value.toInt).Fits .int64 :=
    ⟨rfl, Int.bmod_eq_of_le value.le_toInt value.toInt_lt⟩
  have back := Scalar.convert_convert word (Nat.zero_le _) fits
  rw [toInts, List.getElem?_map, Array.getElem?_toList, ofInts_data inside known, Option.map_some]
  simp only [ofInts, ofScalars, back]

end Buffer

/-- **Conversions rescale, round down and wrap.** Between types of integers or fixed point numbers,
an integer of the first type is rescaled by the bits after the point, rounded down and normalized.
If no bits are taken away after the point and the rescaled integer is in the range of the second
type, then the conversion back yields the integer. So a buffer that is made of words gives back each
word that is in the range of its element type once it is scaled. -/
theorem Scalar.convert_rescales {source target : DType} (given : source.IsRaw)
    (wanted : target.IsRaw) :
    ∃ low high, target.rawMin? = some low ∧ target.rawMax? = some high ∧
      (∀ value, normalize value source = value →
        (Scalar.int value).convert source target =
            .int (normalize
              ⌊(value : ℚ) * 2 ^ ((target.fraction : ℤ) - source.fraction)⌋ target) ∧
          (source.fraction ≤ target.fraction →
            low ≤ value * 2 ^ (target.fraction - source.fraction) →
            value * 2 ^ (target.fraction - source.fraction) ≤ high →
            ((Scalar.int value).convert source target).convert target source = .int value)) ∧
      ∀ (shape : List Nat) (values : List Int64) (position : Nat) (value : Int64),
        position < extentProduct shape → values[position]? = some value →
        low ≤ value.toInt * 2 ^ target.fraction → value.toInt * 2 ^ target.fraction ≤ high →
        (Buffer.ofInts shape target values).toInts[position]? = some value.toInt := by
  obtain ⟨low, high, least, greatest, range⟩ := wanted.range
  have fits : ∀ value, low ≤ value → value ≤ high → (Scalar.int value).Fits target :=
    fun _ above below => ⟨wanted.raw, (range _).mpr ⟨above, below⟩⟩
  refine ⟨low, high, least, greatest, fun value normal => ⟨?_, fun le above below => ?_⟩, ?_⟩
  · rw [convert_int given.raw wanted.raw, Promotion.bring, rescale_eq_floor]
  · exact convert_convert ⟨given.raw, normal⟩ le (fits _ above below)
  · intro shape values position value inside known above below
    exact Buffer.toInts_ofInts inside known (fits _ above below)

/-- Minus one and a half is rounded down to minus two. The least byte is brought to the least number
of sixteen bits, eight of them after the point, and back, and a buffer of these numbers gives it
back. -/
theorem leastByte_rescaled :
    (Scalar.int (-3)).convert (.fixed 8 1) (.int 8) = .int (-2) ∧
      ((Scalar.int (-128)).convert (.int 8) (.fixed 16 8)).convert (.fixed 16 8) (.int 8) =
        .int (-128) ∧
      (Buffer.ofInts [2] (.fixed 16 8) [7, -128]).toInts[1]? = some (-128) := by
  have half : (DType.fixed 8 1).IsRaw := ⟨rfl, by decide, by decide⟩
  have byte : (DType.int 8).IsRaw := ⟨rfl, by decide, by decide⟩
  have long : (DType.fixed 16 8).IsRaw := ⟨rfl, by decide, by decide⟩
  obtain ⟨_, _, -, -, down, -⟩ := Scalar.convert_rescales half byte
  obtain ⟨low, high, least, greatest, back, buffer⟩ := Scalar.convert_rescales byte long
  obtain rfl : -32768 = low := Option.some.inj least
  obtain rfl : 32767 = high := Option.some.inj greatest
  refine ⟨?_, ?_, ?_⟩
  · rw [(down (-3) (by decide)).1, ← rescale_eq_floor]
    rfl
  · exact (back (-128) (by decide)).2 (by decide) (by decide) (by decide)
  · exact buffer [2] [7, -128] 1 (-128) (by decide) rfl (by decide) (by decide)

end AffineKernel
