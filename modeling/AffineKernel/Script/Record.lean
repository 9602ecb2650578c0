import AffineKernel.Affine.Map
import AffineKernel.Build.Indexing
import AffineKernel.Script.Query

/-!
# Records of build scripts

Each statement of a build script leaves a record: what it reports, the error it
ended in, if any, and the size of the module and the depth of the stack of
insertion points after it. A statement with a body reports the records of the
statements of the body that were reached.
-/

set_option autoImplicit false

namespace AffineKernel

/-- A node as a record shows it. -/
structure NodeView where
  id : NodeId
  name : String
  dtype : Option DType
  /-- The nodes directly below. -/
  args : List NodeId
  binding : Option Binding

/-- A tensor as a record shows it. -/
structure TensorView where
  tensor : Tensor
  storage : Option Value

/-- Properties of a node. -/
structure NodeInfo where
  built : Bool
  statement : Bool
  load : Bool
  loopName : Option String

mutual

/-- What a statement reports. -/
inductive Report where
  | nothing
  /-- A variable of the statement stands for nothing; the statement did nothing. -/
  | undefined (name : String)
  | expr (node : NodeView)
  | tensor (tensor : TensorView)
  | value (value : Value)
  | same (same : Bool)
  | slice (tensor : NodeId) (shape : List Nat) (dtype : DType) (indices : List NodeId)
  | pair (first second : NodeView)
  | bound (binding : Binding)
  /-- A body, and the operation that owns it. -/
  | body (records : List Record) (op : Option OpId)
  | point (point : InsertionPoint)
  | info (node : NodeView) (info : NodeInfo)
  | context (mode : BuildMode) (emptyStack : Bool)
  | tree (text : String)
  /-- Loop variables collected so far, and the affine form of an index if it has one. -/
  | form (operands : List NodeId) (form : Option AffineExpr)
  /-- Loop variables of an access, and its map if it has one. -/
  | map (operands : List NodeId) (map : Option AffineMap)
  | answer (answer : Answer)

/-- What a statement leaves behind. -/
inductive Record where
  | mk (report : Report) (failure : Option BuildError) (ops depth : Nat)

end

namespace Tensor

/-- A tensor in words. -/
def describe (tensor : Tensor) : String :=
  "Tensor(" ++ Text.quoted tensor.name ++ ", " ++ Text.bracketed (tensor.shape.map Nat.repr) ++
    ", " ++ tensor.dtype.text ++ ")"

end Tensor

namespace Record

/-- The error that a statement ended in. -/
def failure : Record → Option BuildError
  | .mk _ failure _ _ => failure

mutual

/-- Whether a record, or one inside it, holds a question without an answer. -/
def isMalformed : Record → Bool
  | .mk (.answer .malformed) _ _ _ => true
  | .mk (.body records _) _ _ _ => anyMalformed records
  | _ => false

/-- Whether some record of a list holds a question without an answer. -/
def anyMalformed : List Record → Bool
  | [] => false
  | record :: rest => record.isMalformed || anyMalformed rest

end

end Record

end AffineKernel
