import AffineKernel.DType.Basic
import AffineKernel.Text.Quoted

/-!
# Spelling of types

A type is spelled by its kind and its decimal widths:

    index | int<N> | uint<N> | float16 | float32 | float64 | fixed<W>_<F> | ufixed<W>_<F>

`DType.text` writes these spellings and `DType.parse` reads them. A numeral is a
non-empty run of the ten ASCII digits whose value is below two to the 32; extra
leading zeros are read. A width is at least one, and a fraction is at most the
width it belongs to. A spelling of the right form with a width beyond
`maxIntWidth` is refused for its width, everything else as unrecognized.

A second spelling, `DType.hlsName?`, names the type in hardware C++.
-/

set_option autoImplicit false

namespace AffineKernel

namespace DTypeError

/-- The refusal in words. -/
def message : DTypeError → String
  | .unrecognized spec => "unrecognized dtype " ++ Text.quoted spec
  | .unsupportedWidth width =>
    "unsupported integer width " ++ width.repr ++ " (at most " ++ maxIntWidth.repr ++ ")"

end DTypeError

namespace DType

/-- Spelling of a type. -/
def text : DType → String
  | .int width => "int" ++ width.repr
  | .uint width => "uint" ++ width.repr
  | .index => "index"
  | .fixed width fraction => "fixed" ++ width.repr ++ "_" ++ fraction.repr
  | .ufixed width fraction => "ufixed" ++ width.repr ++ "_" ++ fraction.repr
  | .float16 => "float16"
  | .float32 => "float32"
  | .float64 => "float64"

/-! ## Reading -/

/-- Value of a decimal numeral below two to the 32. -/
def numeral? (digits : List Char) : Option Nat :=
  if digits ≠ [] ∧ digits.all Char.isDigit then
    let value := Nat.ofDigitChars 10 digits 0
    if value < 2 ^ 32 then some value else none
  else none

/-- Outcome of a spelling of the right form: its type, unless the width is too large. -/
def checked (dtype : DType) : Except DTypeError DType :=
  (checkWidth dtype.width).map (fun _ => dtype)

/-- A width of an integer type. -/
def readWidth? (digits : List Char) : Option Nat :=
  (numeral? digits).filter (0 < ·)

/-- Width and fraction of a fixed point type, with an underscore between them. -/
def readFixed? (digits : List Char) : Option (Nat × Nat) := do
  let (left, right) := digits.span (· ≠ '_')
  match right with
  | [] => none
  | _ :: right =>
    let width ← numeral? left
    let fraction ← numeral? right
    if 0 < width ∧ fraction ≤ width then some (width, fraction) else none

/-- The type that a spelling of the right form names, whatever its width. -/
def read? (spec : List Char) : Option DType :=
  if spec = "index".toList then some .index
  else if let some rest := "uint".toList.isPrefixOf? spec then (readWidth? rest).map .uint
  else if let some rest := "int".toList.isPrefixOf? spec then (readWidth? rest).map .int
  else if let some rest := "ufixed".toList.isPrefixOf? spec then
    (readFixed? rest).map (fun parts => .ufixed parts.1 parts.2)
  else if let some rest := "fixed".toList.isPrefixOf? spec then
    (readFixed? rest).map (fun parts => .fixed parts.1 parts.2)
  else if spec = "float16".toList then some .float16
  else if spec = "float32".toList then some .float32
  else if spec = "float64".toList then some .float64
  else none

/-- Reads a spelling. -/
def parse (spec : String) : Except DTypeError DType :=
  match read? spec.toList with
  | some dtype => checked dtype
  | none => .error (.unrecognized spec)

/-! ## Hardware C++ names -/

/-- Name of a type in hardware C++; `index` and half precision floats have none. -/
def hlsName? : DType → Option String
  | .float32 => some "float"
  | .float64 => some "double"
  | .int 1 => some "bool"
  | .int 32 => some "int"
  | .int 64 => some "long int"
  | .int width => some ("ap_int<" ++ width.repr ++ ">")
  | .uint 32 => some "unsigned int"
  | .uint 64 => some "unsigned long int"
  | .uint width => some ("ap_uint<" ++ width.repr ++ ">")
  | .fixed width fraction => some ("ap_fixed<" ++ width.repr ++ ", " ++ fraction.repr ++ ">")
  | .ufixed width fraction => some ("ap_ufixed<" ++ width.repr ++ ", " ++ fraction.repr ++ ">")
  | .float16 | .index => none

end DType

end AffineKernel
