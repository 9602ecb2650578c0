import AffineKernel.Affine.Map
import AffineKernel.DType.Text
import AffineKernel.Real.Layout

/-!
# Types and attributes of operations

A value of the intermediate representation is a scalar or a buffer of a fixed
shape. An attribute is a constant attached to an operation: a number with its
type, a text, an affine map, an integer set, the name of a function, or a bare
flag. A fixed point number is attached by its raw integer.

The text of a type determines the type; numbers are written before their type.
-/

set_option autoImplicit false

namespace AffineKernel

/-- Spelling of a data type inside the intermediate representation. -/
def DType.irText : DType → String
  | .int width => "i" ++ width.repr
  | .uint width => "ui" ++ width.repr
  | .index => "index"
  | .fixed width fraction => "!kiln.fixed<" ++ width.repr ++ ", " ++ fraction.repr ++ ">"
  | .ufixed width fraction => "!kiln.ufixed<" ++ width.repr ++ ", " ++ fraction.repr ++ ">"
  | .float16 => "f16"
  | .float32 => "f32"
  | .float64 => "f64"

/-- Type of a value. -/
inductive ValueType where
  | scalar (dtype : DType)
  /-- A buffer of a fixed shape. -/
  | memref (shape : List Nat) (element : DType)
deriving DecidableEq, Inhabited

namespace ValueType

/-- The type of a scalar, or of the elements of a buffer. -/
def dtype : ValueType → DType
  | .scalar dtype | .memref _ dtype => dtype

/-- The type of a scalar. -/
def asScalar? : ValueType → Option DType
  | .scalar dtype => some dtype
  | .memref _ _ => none

/-- The shape of a buffer. -/
def shape? : ValueType → Option (List Nat)
  | .scalar _ => none
  | .memref shape _ => some shape

/-- Writes a type. -/
def text : ValueType → String
  | .scalar dtype => dtype.irText
  | .memref shape element =>
    "memref<" ++ String.join (shape.map (fun extent => extent.repr ++ "x")) ++ element.irText ++ ">"

end ValueType

/-- A constant attached to an operation. -/
inductive Attribute where
  | int (value : Int64) (dtype : DType)
  | float (value : Float) (dtype : DType)
  | str (text : String)
  | affineMap (map : AffineMap)
  | integerSet (set : IntegerSet)
  /-- Name of a function. -/
  | symbol (name : String)
  /-- A flag that is either present or not. -/
  | unit
deriving Inhabited

namespace Attribute

/-- An integer of type `index`. -/
def index (value : Int64) : Attribute := .int value .index

/-- An integer of type `int64`. -/
def int64 (value : Int64) : Attribute := .int value .int64

/-- The value of an integer. -/
def asInt? : Attribute → Option Int64
  | .int value _ => some value
  | _ => none

/-- The text of a text or the name of a function. -/
def asText? : Attribute → Option String
  | .str text | .symbol text => some text
  | _ => none

/-- The affine map. -/
def asMap? : Attribute → Option AffineMap
  | .affineMap map => some map
  | _ => none

/-- The integer set. -/
def asSet? : Attribute → Option IntegerSet
  | .integerSet set => some set
  | _ => none

/-- An integer attribute as a number: a word of an unsigned 64-bit type counts without sign. -/
def intText (value : Int64) (dtype : DType) : String :=
  if dtype.isUnsigned && dtype.width = 64 then value.toUInt64.toNat.repr else value.toInt.repr

/-- Writes an attribute. -/
def text : Attribute → String
  | .int value dtype => intText value dtype ++ " : " ++ dtype.irText
  | .float value dtype => FloatLayout.marked.render value ++ " : " ++ dtype.irText
  | .str text => Text.quoted text
  | .affineMap map => "affine_map<" ++ map.text ++ ">"
  | .integerSet set => "affine_set<" ++ set.text ++ ">"
  | .symbol name => "@" ++ name
  | .unit => "unit"

end Attribute

end AffineKernel
