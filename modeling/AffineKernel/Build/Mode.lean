import AffineKernel.Text.Blank

/-!
# Build modes

In the deferred mode a node is recorded when it is constructed and turned into
operations when it is built. In the in-place mode it is turned into operations
at once, unless something it needs is not there yet.

The mode can be chosen by a setting from outside: one of a few words, in any
case of its ASCII letters and with blanks around it, asks for the in-place mode.
-/

set_option autoImplicit false

namespace AffineKernel

/-- When nodes are turned into operations. -/
inductive BuildMode where
  | deferred
  | inPlace
deriving DecidableEq, Inhabited

namespace BuildMode

/-- Settings that ask for the in-place mode. -/
def inPlaceWords : List String := ["1", "true", "yes", "on"]

/-- The mode that a setting asks for. -/
def ofSetting : Option String → BuildMode
  | none => .deferred
  | some setting =>
    let word := String.ofList ((Text.trimBlanks setting.toList).map Char.toLower)
    if word ∈ inPlaceWords then .inPlace else .deferred

def isInPlace : BuildMode → Bool
  | .inPlace => true
  | .deferred => false

def name : BuildMode → String
  | .deferred => "Deferred"
  | .inPlace => "InPlace"

end BuildMode

end AffineKernel
