import AffineKernel.Affine.Map
import AffineKernel.Build.Error
import AffineKernel.Build.Expr
import AffineKernel.Real.Layout

/-!
# Affine accesses

The indices of a load or store become an affine map over the loop variables that
occur in them. Each variable has a dimension of the map, in the order of first
occurrence. An index is built from loop variables, integer literals, casts,
sums, differences, products, quotients and remainders; a quotient by the literal
zero and a formula that is not affine are refused.

`Extraction` is the monad of this reading. A failure keeps the variables found
up to it.
-/

set_option autoImplicit false

namespace AffineKernel

/-- A loop variable that occurs in an access. -/
structure LoopRef where
  id : NodeId
  name : String
deriving DecidableEq, Inhabited

/-- Reading of indices: collects the loop variables, the first found first. -/
abbrev Extraction := EStateM BuildError (List LoopRef)

namespace Extraction

/-- The dimension of a loop variable; a new variable receives the next one. -/
def slot (ref : LoopRef) : Extraction Nat := do
  let found ← get
  match found.findIdx? (fun seen => seen.id = ref.id) with
  | some position => return position
  | none =>
    set (found ++ [ref])
    return found.length

/-- Refuses an index. -/
def refuse {α : Type} (reason : String) : Extraction α := throw (.nonAffineIndex reason)

/-- Whether an operator divides. -/
def dividing : BinaryKind → Bool
  | .div | .floorDiv | .rem => true
  | _ => false

/-- The affine form of an operator, if it has one. -/
def operator? : BinaryKind → Option (AffineExpr → AffineExpr → AffineExpr)
  | .add => some .add
  | .sub => some .sub
  | .mul => some .mul
  | .div | .floorDiv => some .floorDiv
  | .rem => some .mod
  | _ => none

/-- Joins the affine forms of two operands. -/
def join (kind : BinaryKind) (lhs rhs : AffineExpr) : Extraction AffineExpr :=
  if dividing kind && rhs = .constant 0 then refuse (kind.name ++ " by zero")
  else match operator? kind with
    | none => refuse ("operator " ++ kind.name)
    | some combine =>
      let combined := combine lhs rhs
      if combined.isPure then pure combined else refuse combined.text

/-- The affine form of an index. -/
def index : Expr → Extraction AffineExpr
  | .loopVar id name | .axis id name _ _ => do return .dim (← slot ⟨id, name⟩)
  | .constant _ _ (.int value) => pure (.constant value)
  | .constant _ _ (.float value) => refuse ("float constant " ++ FloatLayout.plain.render value)
  | .cast _ _ source => index source
  | .binary _ _ kind lhs rhs => do
    let left ← index lhs
    let right ← index rhs
    join kind left right
  | other => refuse (other.name ++ " node")

/-- The map of an access, from nothing collected. -/
def access (indices : List Expr) : Extraction AffineMap := do
  set ([] : List LoopRef)
  let results ← indices.mapM index
  return ⟨(← get).length, 0, results⟩

end Extraction

end AffineKernel
