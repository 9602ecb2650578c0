import AffineKernel.Affine.Expr
import AffineKernel.Text.Quoted

/-!
# Affine maps and integer sets

An affine map sends the values of its dimensions and symbols to the values of
its results. An integer set is the conjunction of constraints over dimensions
and symbols; membership is decided constraint by constraint, and the first
constraint that fails settles it.
-/

set_option autoImplicit false

namespace AffineKernel

/-- A list of affine expressions over numbered dimensions and symbols. -/
structure AffineMap where
  dims : Nat
  symbols : Nat
  results : List AffineExpr
deriving DecidableEq, Inhabited

/-- A condition on the value of an affine expression. -/
inductive Constraint where
  /-- The value is zero. -/
  | zero (expr : AffineExpr)
  /-- The value is not negative. -/
  | nonneg (expr : AffineExpr)
deriving DecidableEq, Inhabited

/-- A conjunction of affine constraints over numbered dimensions and symbols. -/
structure IntegerSet where
  dims : Nat
  symbols : Nat
  constraints : List Constraint
deriving DecidableEq, Inhabited

/-- The numbered names that stand in front of a map or set: dimensions in parentheses, then any
symbols in brackets. -/
def affineHeader (dims symbols : Nat) : String :=
  Text.parenthesized ((List.range dims).map (fun position => "d" ++ position.repr)) ++
    (if symbols = 0 then ""
    else Text.bracketed ((List.range symbols).map (fun position => "s" ++ position.repr)))

namespace AffineMap

/-- The map without arguments and with one constant result. -/
def constant (value : Int64) : AffineMap := ⟨0, 0, [.constant value]⟩

/-- The map from dimensions to themselves. -/
def identity (dims : Nat) : AffineMap := ⟨dims, 0, (List.range dims).map .dim⟩

/-- The only result, if there is one and it is constant. -/
def asConstant? (map : AffineMap) : Option Int64 :=
  match map.results with
  | [result] => result.asConstant?
  | _ => none

/-- Whether every result is affine. -/
def isPure (map : AffineMap) : Bool := map.results.all AffineExpr.isPure

/-- Values of the results; none if one of them has no value. -/
def eval (map : AffineMap) (dims symbols : List Int64) : Option (List Int64) :=
  map.results.mapM (AffineExpr.eval dims symbols)

/-- Whether the product of a remainder leaves the words on the way to the values of a list. -/
def overflowsAmong (dims symbols : List Int64) : List AffineExpr → Bool
  | [] => false
  | expr :: rest =>
    expr.overflows dims symbols ||
      ((expr.eval dims symbols).isSome && overflowsAmong dims symbols rest)

/-- Whether the product of a remainder leaves the words on the way to the values of the results. -/
def overflows (map : AffineMap) (dims symbols : List Int64) : Bool :=
  overflowsAmong dims symbols map.results

def text (map : AffineMap) : String :=
  affineHeader map.dims map.symbols ++ " -> " ++
    Text.parenthesized (map.results.map AffineExpr.text)

end AffineMap

namespace Constraint

/-- The constrained expression. -/
def expr : Constraint → AffineExpr
  | .zero expr | .nonneg expr => expr

/-- Whether a value satisfies the constraint. -/
def holds (constraint : Constraint) (value : Int64) : Bool :=
  match constraint with
  | .zero _ => value = 0
  | .nonneg _ => 0 ≤ value

def text : Constraint → String
  | .zero expr => expr.text ++ " == 0"
  | .nonneg expr => expr.text ++ " >= 0"

end Constraint

namespace IntegerSet

/-- The set of the one-dimensional points whose coordinate is one. -/
def isOne : IntegerSet := ⟨1, 0, [.zero (.sub (.dim 0) (.constant 1))]⟩

/-- Whether all constraints of a list hold at a point. The list is read until the first constraint
that fails; a constraint without a value before it leaves the question open. -/
def satisfies (dims symbols : List Int64) : List Constraint → Option Bool
  | [] => some true
  | constraint :: rest =>
    match constraint.expr.eval dims symbols with
    | none => none
    | some value => if constraint.holds value then satisfies dims symbols rest else some false

/-- Whether a point belongs to the set; none if that stays open. -/
def contains (set : IntegerSet) (dims symbols : List Int64) : Option Bool :=
  satisfies dims symbols set.constraints

/-- Whether the product of a remainder leaves the words while the constraints of a list are read. -/
def overflowsAmong (dims symbols : List Int64) : List Constraint → Bool
  | [] => false
  | constraint :: rest =>
    constraint.expr.overflows dims symbols ||
      ((constraint.expr.eval dims symbols).any constraint.holds && overflowsAmong dims symbols rest)

/-- Whether the product of a remainder leaves the words while it is decided if a point belongs to
the set. -/
def overflows (set : IntegerSet) (dims symbols : List Int64) : Bool :=
  overflowsAmong dims symbols set.constraints

def text (set : IntegerSet) : String :=
  affineHeader set.dims set.symbols ++ " : " ++
    Text.parenthesized (set.constraints.map Constraint.text)

end IntegerSet

end AffineKernel
