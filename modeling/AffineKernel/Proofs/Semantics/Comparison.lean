import AffineKernel.Proofs.Semantics.Reduction

/-!
# What comparisons compare

A comparison reads the bits of its operands as its type says, with or without a
sign (`DType.read`), and compares what it has read (`Meaning.compare_int`). On
normalized operands of its own type that is the integers themselves, except for
`int1`: a truth value is held as `0` or `1`, but read with a sign, as `0` or
`-1`, so that the order of truth values is turned round (`Meaning.compare_fits`).

Operands of two types of one width are read by the type of the left one. Reading
an integer with a sign or without makes a difference to an order only between
integers of different top bits (`relates_read_iff`).
-/

set_option autoImplicit false

namespace AffineKernel

namespace Comparison

/-- Whether two integers stand in the relation of a comparison. -/
def relates (kind : Comparison) (lhs rhs : Int) : Bool :=
  match kind with
  | .lt => lhs < rhs
  | .le => lhs ≤ rhs
  | .eq => lhs = rhs
  | .ne => lhs ≠ rhs
  | .gt => rhs < lhs
  | .ge => rhs ≤ lhs

/-- The comparison that says the same of the operands in the other order. -/
def swap : Comparison → Comparison
  | .lt => .gt
  | .le => .ge
  | .eq => .eq
  | .ne => .ne
  | .gt => .lt
  | .ge => .le

/-- Whether a comparison asks for an order. -/
def isOrder : Comparison → Bool
  | .eq | .ne => false
  | _ => true

variable (kind : Comparison) (lhs rhs : Int)

theorem relates_swap : kind.swap.relates rhs lhs = kind.relates lhs rhs := by
  cases kind <;> simp [swap, relates, eq_comm]

theorem relates_neg : kind.relates (-lhs) (-rhs) = kind.relates rhs lhs := by
  cases kind <;> simp [relates, eq_comm]

end Comparison

/-- The bits of an integer as a type reads them. -/
def DType.read (dtype : DType) (value : Int) : Int :=
  if dtype.isUnsigned then unsigned value dtype.width else signed value dtype.width

/-! ## Readings -/

/-- The bits without a sign are the bits with a sign, wrapped once if that is negative. -/
theorem unsigned_eq (value : Int) (width : Nat) :
    unsigned value width =
      if signed value width < 0 then signed value width + 2 ^ width else signed value width := by
  have positive : 0 < 2 ^ width := Nat.two_pow_pos width
  have least : _ ≤ signed value width := Int.le_bmod positive
  have greatest : signed value width < _ := Int.bmod_lt positive
  have wrapped : unsigned value width = signed value width % 2 ^ width := by
    have congruent := Int.bmod_emod (x := value) (m := 2 ^ width)
    push_cast at congruent
    rw [signed, congruent, unsigned]
  push_cast at least greatest
  rw [wrapped]
  by_cases negative : signed value width < 0
  · rw [if_pos negative, ← Int.add_emod_right]
    exact Int.emod_eq_of_lt (by omega) (by omega)
  · rw [if_neg negative]
    exact Int.emod_eq_of_lt (by omega) (by omega)

/-- Both readings tell the same integers apart. -/
theorem signed_inj (a b : Int) (width : Nat) :
    signed a width = signed b width ↔ unsigned a width = unsigned b width := by
  constructor
  · intro same
    rw [unsigned_eq, unsigned_eq, same]
  · intro same
    have congruent : a % (2 ^ width : Nat) = b % (2 ^ width : Nat) := by exact_mod_cast same
    rw [signed, signed, ← Int.emod_bmod, congruent, Int.emod_bmod]

/-- The order of the bits of two integers is the same with a sign and without exactly if their top
bits are the same. -/
theorem Comparison.relates_unsigned_iff (kind : Comparison) (a b : Int) (width : Nat) :
    kind.relates (unsigned a width) (unsigned b width) =
        kind.relates (signed a width) (signed b width) ↔
      kind.isOrder = false ∨ (signed a width < 0 ↔ signed b width < 0) := by
  have positive : 0 < 2 ^ width := Nat.two_pow_pos width
  have leastLeft : _ ≤ signed a width := Int.le_bmod positive
  have leastRight : _ ≤ signed b width := Int.le_bmod positive
  have greatestLeft : signed a width < _ := Int.bmod_lt positive
  have greatestRight : signed b width < _ := Int.bmod_lt positive
  have equal := signed_inj a b width
  cases kind with
  | eq | ne => simp [relates, isOrder, equal]
  | lt | le | gt | ge =>
      simp only [relates, isOrder, unsigned_eq, decide_eq_decide]
      push_cast at leastLeft leastRight greatestLeft greatestRight
      split <;> split <;> simp <;> omega

namespace DType

variable {dtype other : DType}

/-- A type reads its own integers as they are, but for truth values. -/
theorem read_fits {value : Int} (fits : (Scalar.int value).Fits dtype) (several : dtype ≠ .bool) :
    dtype.read value = value := by
  have same := fits.2
  have notBool : dtype.isBool = false := by
    cases dtype <;> simp_all [isBool]
  simpa [normalize, read, notBool] using same

/-- A truth value is read with a sign. -/
theorem read_bool {value : Int} (fits : (Scalar.int value).Fits .bool) :
    DType.bool.read value = -value := by
  have bit : 0 ≤ value ∧ value ≤ 2 ^ 1 - 1 := unsigned_eq_iff.mp fits.2
  obtain rfl | rfl : value = 0 ∨ value = 1 := by omega
  · rfl
  · rfl

/-- Two types of one width read a pair of integers in the same order, unless only one of them reads
a sign and only one of the integers has it. -/
theorem relates_read_iff {kind : Comparison} {a b : Int} (width : other.width = dtype.width) :
    kind.relates (dtype.read a) (dtype.read b) = kind.relates (other.read a) (other.read b) ↔
      kind.isOrder = false ∨ dtype.isUnsigned = other.isUnsigned ∨
        (signed a dtype.width < 0 ↔ signed b dtype.width < 0) := by
  have apart := Comparison.relates_unsigned_iff kind a b dtype.width
  simp only [read, width]
  cases dtype.isUnsigned <;> cases other.isUnsigned <;> simp [apart]
  rw [eq_comm, apart]

end DType

namespace Meaning

variable {dtype : DType}

/-- A predicate of integers holds of what it reads. -/
theorem compareInts_eq (kind : Comparison) (dtype : DType) (lhs rhs : Int) :
    compareInts (kind.intPredicate dtype.isUnsigned) dtype.width lhs rhs =
      truth (kind.relates (dtype.read lhs) (dtype.read rhs)) := by
  have equal := signed_inj lhs rhs dtype.width
  simp only [compareInts, DType.read]
  cases kind <;> cases dtype.isUnsigned <;>
    simp [Comparison.intPredicate, IntPredicate.isUnsigned, IntPredicate.holds,
      Comparison.relates, equal]

/-- A comparison compares what its type reads. -/
theorem compare_int (kind : Comparison) (raw : dtype.isFloat = false) (lhs rhs : Int) :
    compare kind dtype (.int lhs) (.int rhs) =
      .ok (truth (kind.relates (dtype.read lhs) (dtype.read rhs))) := by
  rw [← compareInts_eq]
  cases dtype with
  | float16 | float32 | float64 => cases raw
  | _ => rfl

/-- **Comparisons of one type.** -/
theorem compare_fits (kind : Comparison) {lhs rhs : Int} (left : (Scalar.int lhs).Fits dtype)
    (right : (Scalar.int rhs).Fits dtype) :
    compare kind dtype (.int lhs) (.int rhs) =
      .ok (truth (if dtype = .bool then kind.relates rhs lhs else kind.relates lhs rhs)) := by
  rw [compare_int kind left.1]
  split
  · rename_i one
    subst one
    rw [DType.read_bool left, DType.read_bool right, Comparison.relates_neg]
  · rename_i several
    rw [DType.read_fits left several, DType.read_fits right several]

end Meaning

end AffineKernel
