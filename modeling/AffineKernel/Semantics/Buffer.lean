import AffineKernel.Semantics.Scalar

/-!
# Buffers

A buffer is a dense array of scalars in row-major order. `Buffer.offset?` is the
place of an index tuple: there is one exactly when the tuple has an index for
every extent and each index is below its extent.
-/

set_option autoImplicit false

namespace AffineKernel

/-- A dense row-major array of scalars of one type. -/
structure Buffer where
  shape : List Nat
  element : DType
  data : Array Scalar
deriving Inhabited

/-- Number of elements of a shape. -/
def extentProduct (shape : List Nat) : Nat := shape.foldl (· * ·) 1

namespace Buffer

/-- Whether the elements of the rest of a shape, after `leading` rows, can be allocated: they are
counted extent by extent in words without sign, and a vector of at most `2 ^ 63` bytes holds fewer
than `2 ^ 58` scalars. -/
def allocatesFrom (leading : Nat) : List Nat → Bool
  | [] => leading < 2 ^ 58
  | extent :: shape => leading * extent < 2 ^ 64 && allocatesFrom (leading * extent) shape

/-- Whether the elements of a shape can be allocated. -/
def allocates (shape : List Nat) : Bool := allocatesFrom 1 shape

/-- Place of the rest of an index tuple, after `leading` rows of what is left of the shape. -/
def offsetFrom (leading : Nat) : List Nat → List Int64 → Option Nat
  | [], [] => some leading
  | extent :: shape, index :: indices =>
    if 0 ≤ index.toInt ∧ index.toInt < extent then
      offsetFrom (leading * extent + index.toInt.toNat) shape indices
    else none
  | _, _ => none

/-- Place of an index tuple in row-major order. -/
def offset? (shape : List Nat) (indices : List Int64) : Option Nat := offsetFrom 0 shape indices

/-- The buffer of zeros. -/
def zeros (shape : List Nat) (element : DType) : Buffer :=
  ⟨shape, element, Array.replicate (extentProduct shape) (Scalar.zero element)⟩

/-- The buffer of given elements; missing ones are zero, and surplus ones are dropped. -/
def ofScalars (shape : List Nat) (element : DType) (values : List Scalar) : Buffer :=
  let size := extentProduct shape
  let given := values.take size
  ⟨shape, element, (given ++ List.replicate (size - given.length) (Scalar.zero element)).toArray⟩

/-- The buffer of given integers, converted to the element type. -/
def ofInts (shape : List Nat) (element : DType) (values : List Int64) : Buffer :=
  ofScalars shape element
    (values.map fun value => (Scalar.int value.toInt).convert .int64 element)

/-- The buffer of given floats, converted to the element type. -/
def ofFloats (shape : List Nat) (element : DType) (values : List Float) : Buffer :=
  ofScalars shape element (values.map fun x => (Scalar.float x).convert .float64 element)

/-- Number of elements. -/
def size (buffer : Buffer) : Nat := buffer.data.size

def isEmpty (buffer : Buffer) : Bool := buffer.size = 0

/-- The element at an index tuple. -/
def get? (buffer : Buffer) (indices : List Int64) : Option Scalar := do
  let offset ← offset? buffer.shape indices
  buffer.data[offset]?

/-- The buffer with another element at a place. -/
def put (buffer : Buffer) (offset : Nat) (value : Scalar) : Buffer :=
  { buffer with data := buffer.data.setIfInBounds offset value }

/-- The buffer with another element at an index tuple; none if the tuple is out of bounds. -/
def set? (buffer : Buffer) (indices : List Int64) (value : Scalar) : Option Buffer := do
  let offset ← offset? buffer.shape indices
  some (buffer.put offset value)

/-- The elements as doubles. -/
def toFloats (buffer : Buffer) : List Float :=
  buffer.data.toList.map (fun scalar => scalar.toFloat buffer.element)

/-- The elements converted to `int64`. -/
def toInts (buffer : Buffer) : List Int :=
  buffer.data.toList.map fun scalar =>
    match scalar.convert buffer.element .int64 with
    | .int value => value
    | .float x => Binary64.truncate (-2 ^ 63) (2 ^ 63 - 1) x

end Buffer

end AffineKernel
