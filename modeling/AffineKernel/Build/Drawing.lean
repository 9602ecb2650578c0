import AffineKernel.Build.Expr
import AffineKernel.DType.Text
import AffineKernel.Real.Layout

/-!
# Drawings of expressions

An expression is drawn as a tree of entries, one line each, with branches of
line-drawing characters. A node that occurs more than once is expanded where it
occurs first, in depth-first order from left to right; every later occurrence is
a reference back to it, without children.

`Expr.drawing` decides what the entries are, and `Drawing.render` writes them.
-/

set_option autoImplicit false

namespace AffineKernel

/-- An entry of a drawing with the entries below it. -/
inductive Drawing where
  | entry (text : String) (children : List Drawing)

namespace Bound

/-- A bound in an entry: a number, or a reference to a node. -/
def text : Bound → String
  | .const value => value.toInt.repr
  | .expr value => "[" ++ value.id.repr ++ "]"

end Bound

namespace Literal

/-- A literal in an entry. -/
def text : Literal → String
  | .int value => value.toInt.repr
  | .float value => FloatLayout.plain.render value

end Literal

namespace Expr

/-- The kind of a node as its entry shows it. -/
def label : Expr → String
  | .constant _ _ value => "CONST(" ++ value.text ++ ")"
  | .loopVar _ name => "IV('" ++ name ++ "')"
  | .axis _ name lower upper => "IV('" ++ name ++ "', " ++ lower.text ++ ".." ++ upper.text ++ ")"
  | .unary _ _ kind _ => kind.label
  | .binary _ _ kind _ _ => kind.label
  | .compare _ kind _ _ => "CMP(" ++ kind.name ++ ")"
  | .cast .. => "CAST"
  | .load _ tensor _ => "LOAD(" ++ tensor.name ++ ")"
  | .store _ tensor _ _ => "STORE(" ++ tensor.name ++ ")"
  | .select .. => "SELECT"
  | .call _ _ callee args =>
    let tensors := (CallArg.tensors args).map (fun tensor => Text.quoted tensor.name)
    "CALL(@" ++ callee ++ ", tensors=" ++ Text.bracketed tensors ++ ")"
  | .getBit .. => "GET_BIT"
  | .reduce _ _ kind _ axes =>
    let names := (axes.filterMap loopName?).map Text.quoted
    "REDUCE(" ++ kind.name ++ ", axes=" ++ Text.bracketed names ++ ")"

/-- The entry of a node that is drawn for the first time. -/
def entryText (expr : Expr) : String :=
  let head := "[" ++ expr.id.repr ++ "] " ++ expr.label
  match expr.dtype? with
  | some dtype => head ++ " : " ++ dtype.text
  | none => head

/-- The entry of a node that was drawn before. -/
def referenceText (id : NodeId) : String := "[" ++ id.repr ++ "] → (see above)"

/-- Draws a node: in full, with its children after it, unless it is among the nodes drawn so far. -/
def drawOnce (expr : Expr) (children : StateM (List NodeId) (List Drawing)) :
    StateM (List NodeId) Drawing := do
  let drawn ← get
  if expr.id ∈ drawn then return .entry (referenceText expr.id) []
  set (expr.id :: drawn)
  return .entry expr.entryText (← children)

mutual

/-- Draws a node and what is below it, given the nodes drawn so far. -/
def draw : Expr → StateM (List NodeId) Drawing
  | .constant id dtype value => drawOnce (.constant id dtype value) (pure [])
  | .loopVar id name => drawOnce (.loopVar id name) (pure [])
  | .axis id name lower upper => drawOnce (.axis id name lower upper) (pure [])
  | .unary id dtype kind operand => drawOnce (.unary id dtype kind operand) do
    return [← draw operand]
  | .binary id dtype kind lhs rhs => drawOnce (.binary id dtype kind lhs rhs) do
    let left ← draw lhs
    let right ← draw rhs
    return [left, right]
  | .compare id kind lhs rhs => drawOnce (.compare id kind lhs rhs) do
    let left ← draw lhs
    let right ← draw rhs
    return [left, right]
  | .cast id dtype source => drawOnce (.cast id dtype source) do
    return [← draw source]
  | .load id tensor indices => drawOnce (.load id tensor indices) (drawAll indices)
  | .store id tensor value indices => drawOnce (.store id tensor value indices) do
    let first ← draw value
    let others ← drawAll indices
    return first :: others
  | .select id dtype condition thenValue elseValue =>
    drawOnce (.select id dtype condition thenValue elseValue) do
      let first ← draw condition
      let second ← draw thenValue
      let third ← draw elseValue
      return [first, second, third]
  | .call id dtype callee args => drawOnce (.call id dtype callee args) (drawArgs args)
  | .getBit id value bit => drawOnce (.getBit id value bit) do
    let left ← draw value
    let right ← draw bit
    return [left, right]
  | .reduce id dtype kind body axes => drawOnce (.reduce id dtype kind body axes) do
    let first ← draw body
    let others ← drawAll axes
    return first :: others

/-- Draws nodes from left to right. -/
def drawAll : List Expr → StateM (List NodeId) (List Drawing)
  | [] => pure []
  | expr :: rest => do
    let first ← draw expr
    let others ← drawAll rest
    return first :: others

/-- Draws the expressions among the arguments of a call. -/
def drawArgs : List CallArg → StateM (List NodeId) (List Drawing)
  | [] => pure []
  | .tensor _ :: rest => drawArgs rest
  | .expr value :: rest => do
    let first ← draw value
    let others ← drawArgs rest
    return first :: others

end

/-- The drawing of an expression. -/
def drawing (expr : Expr) : Drawing := (expr.draw.run []).1

end Expr

namespace Drawing

mutual

/-- The lines of an entry: `first` stands before its own line and `rest` before those below. -/
def lines (first rest : String) : Drawing → List String
  | .entry text children => (first ++ text) :: childLines rest children

/-- The lines of the entries below one, with branches. -/
def childLines (rest : String) : List Drawing → List String
  | [] => []
  | [child] => lines (rest ++ "└─ ") (rest ++ "   ") child
  | child :: next :: others =>
    lines (rest ++ "├─ ") (rest ++ "│  ") child ++ childLines rest (next :: others)

end

/-- Writes a drawing, a line end after each line. -/
def render (drawing : Drawing) : String :=
  String.join ((drawing.lines "" "").map (· ++ "\n"))

end Drawing

end AffineKernel
