import AffineKernel.Power

/-!
# Numeric types of a kernel

A kernel computes with signed and unsigned integers, with the `index` type that
addresses buffers, with signed and unsigned fixed point numbers, and with IEEE
floats. `DType` is the type of such a type; two of them are the same exactly
when they are built alike.

Widths are unrestricted here. What a kernel may use is bounded by
`maxIntWidth`, and `rank` is where a width beyond it is refused.

Every type has a place in the promotion order: integers rank by width, `index`
stands right above them, fixed point types rank from one hundred on, and floats
are above everything else.
-/

set_option autoImplicit false

namespace AffineKernel

/-- Largest width of an integer or fixed point number in a kernel. -/
def maxIntWidth : Nat := 64

/-- A scalar data type. -/
inductive DType where
  /-- Signed integer. -/
  | int (width : Nat)
  /-- Unsigned integer. -/
  | uint (width : Nat)
  /-- Addressing integer. -/
  | index
  /-- Signed fixed point number with `fraction` of its `width` bits after the point. -/
  | fixed (width fraction : Nat)
  /-- Unsigned fixed point number. -/
  | ufixed (width fraction : Nat)
  | float16
  | float32
  | float64
deriving DecidableEq, Inhabited

/-- The family of operations that serves a type. -/
inductive Category where
  /-- Integers and `index`. -/
  | int
  | float
  | fixed
deriving DecidableEq, Inhabited

/-- Why a type is refused. -/
inductive DTypeError where
  /-- A text that spells no type. -/
  | unrecognized (spec : String)
  /-- An integer or fixed point type wider than `maxIntWidth`. -/
  | unsupportedWidth (width : Nat)
deriving DecidableEq

namespace Category

/-- Spelling of a category. -/
def name : Category → String
  | .int => "int"
  | .float => "float"
  | .fixed => "fixed"

end Category

namespace DType

/-- The one-bit integer that comparisons and bit accesses produce. -/
abbrev bool : DType := .int 1

/-- The type of an integer literal. -/
abbrev int32 : DType := .int 32

/-- The type of a word. -/
abbrev int64 : DType := .int 64

/-! ## Properties -/

/-- An integer of either signedness, `index` excluded. -/
def isInt : DType → Bool
  | .int _ | .uint _ => true
  | _ => false

def isIndex : DType → Bool
  | .index => true
  | _ => false

/-- An integer or `index`. -/
def isIntegerLike (dtype : DType) : Bool := dtype.isInt || dtype.isIndex

/-- A fixed point number of either signedness. -/
def isFixed : DType → Bool
  | .fixed _ _ | .ufixed _ _ => true
  | _ => false

def isFloat : DType → Bool
  | .float16 | .float32 | .float64 => true
  | _ => false

/-- The type of a truth value. -/
def isBool : DType → Bool
  | .int 1 => true
  | _ => false

/-- Unsigned integers and unsigned fixed point numbers. -/
def isUnsigned : DType → Bool
  | .uint _ | .ufixed _ _ => true
  | _ => false

/-- Everything that is not unsigned; `index` and floats count as signed. -/
def isSigned (dtype : DType) : Bool := !dtype.isUnsigned

/-- The category of a type. -/
def category : DType → Category
  | .int _ | .uint _ | .index => .int
  | .fixed _ _ | .ufixed _ _ => .fixed
  | .float16 | .float32 | .float64 => .float

/-- Number of bits; `index` counts as 64 bits wide. -/
def width : DType → Nat
  | .int width | .uint width | .fixed width _ | .ufixed width _ => width
  | .index => 64
  | .float16 => 16
  | .float32 => 32
  | .float64 => 64

/-- Number of bits after the point, for fixed point types. -/
def fraction? : DType → Option Nat
  | .fixed _ fraction | .ufixed _ fraction => some fraction
  | _ => none

/-- Number of bits after the point, zero for types without a point. -/
def fraction (dtype : DType) : Nat := dtype.fraction?.getD 0

/-- The same kind and fraction with another width; types of a fixed width stay as they are. -/
def withWidth (dtype : DType) (width : Nat) : DType :=
  match dtype with
  | .int _ => .int width
  | .uint _ => .uint width
  | .fixed _ fraction => .fixed width fraction
  | .ufixed _ fraction => .ufixed width fraction
  | other => other

/-! ## Raw ranges

Integers, `index` and fixed point numbers are held as integers. The raw range
of a type is the range of these integers; `int1` holds zero and one. -/

/-- Largest raw value; none for floats and for widths beyond `maxIntWidth`. -/
def rawMax? (dtype : DType) : Option Int :=
  if dtype.width > maxIntWidth then none
  else match dtype with
    | .int 1 => some 1
    | .int width | .fixed width _ => some (2 ^ (width - 1) - 1)
    | .uint width | .ufixed width _ => some (2 ^ width - 1)
    | .index => some (2 ^ 63 - 1)
    | .float16 | .float32 | .float64 => none

/-- Smallest raw value; none for floats and for widths beyond `maxIntWidth`. -/
def rawMin? (dtype : DType) : Option Int :=
  if dtype.width > maxIntWidth then none
  else match dtype with
    | .int 1 => some 0
    | .int width | .fixed width _ => some (-2 ^ (width - 1))
    | .uint _ | .ufixed _ _ => some 0
    | .index => some (-2 ^ 63)
    | .float16 | .float32 | .float64 => none

/-! ## Promotion order -/

/-- Rank of `index`, right above the widest integer. -/
def indexRank : Nat := 65

/-- Fixed point types rank by their width from here on. -/
def fixedRankBase : Nat := 100

/-- Floats rank from here on. -/
def floatRankBase : Nat := 1000

/-- Accepts a width up to `maxIntWidth`. -/
def checkWidth (width : Nat) : Except DTypeError Nat :=
  if width ≤ maxIntWidth then .ok width else .error (.unsupportedWidth width)

/-- Place of a type in the promotion order. Types of one rank meet without a cast. -/
def rank : DType → Except DTypeError Nat
  | .int width | .uint width => checkWidth width
  | .index => .ok indexRank
  | .fixed width _ | .ufixed width _ => (checkWidth width).map (fixedRankBase + ·)
  | .float16 => .ok (floatRankBase + 1)
  | .float32 => .ok (floatRankBase + 2)
  | .float64 => .ok (floatRankBase + 3)

end DType

end AffineKernel
