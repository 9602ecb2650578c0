/-!
# Comparison predicates

A comparison operation carries the code of its predicate. Integer predicates
come in a signed and an unsigned family; which integers are compared is settled
by whoever applies the predicate. Float predicates come in an ordered family,
false when an operand is not a number, and an unordered one, true then.
-/

set_option autoImplicit false

namespace AffineKernel

/-- Predicates on integers and raw fixed point numbers. -/
inductive IntPredicate where
  | eq | ne | slt | sle | sgt | sge | ult | ule | ugt | uge
deriving DecidableEq, Inhabited

/-- Predicates on floats. -/
inductive FloatPredicate where
  | never | oeq | ogt | oge | olt | ole | one | ord
  | ueq | ugt | uge | ult | ule | une | uno | always
deriving DecidableEq, Inhabited

namespace IntPredicate

/-- All predicates, each at the place of its code. -/
def all : List IntPredicate := [.eq, .ne, .slt, .sle, .sgt, .sge, .ult, .ule, .ugt, .uge]

def code : IntPredicate → Int64
  | .eq => 0 | .ne => 1 | .slt => 2 | .sle => 3 | .sgt => 4
  | .sge => 5 | .ult => 6 | .ule => 7 | .ugt => 8 | .uge => 9

/-- The predicate of a code. -/
def ofCode? (code : Int64) : Option IntPredicate := all.find? (fun pred => pred.code = code)

def name : IntPredicate → String
  | .eq => "eq" | .ne => "ne" | .slt => "slt" | .sle => "sle" | .sgt => "sgt"
  | .sge => "sge" | .ult => "ult" | .ule => "ule" | .ugt => "ugt" | .uge => "uge"

/-- Whether the predicate is about operands without sign. -/
def isUnsigned : IntPredicate → Bool
  | .ult | .ule | .ugt | .uge => true
  | _ => false

/-- Whether two integers stand in the relation of the predicate. -/
def holds (pred : IntPredicate) (lhs rhs : Int) : Bool :=
  match pred with
  | .eq => lhs = rhs
  | .ne => lhs ≠ rhs
  | .slt | .ult => lhs < rhs
  | .sle | .ule => lhs ≤ rhs
  | .sgt | .ugt => rhs < lhs
  | .sge | .uge => rhs ≤ lhs

theorem ofCode?_code (pred : IntPredicate) : ofCode? pred.code = some pred := by
  cases pred <;> decide

end IntPredicate

namespace FloatPredicate

/-- All predicates, each at the place of its code. -/
def all : List FloatPredicate :=
  [.never, .oeq, .ogt, .oge, .olt, .ole, .one, .ord,
    .ueq, .ugt, .uge, .ult, .ule, .une, .uno, .always]

def code : FloatPredicate → Int64
  | .never => 0 | .oeq => 1 | .ogt => 2 | .oge => 3
  | .olt => 4 | .ole => 5 | .one => 6 | .ord => 7
  | .ueq => 8 | .ugt => 9 | .uge => 10 | .ult => 11
  | .ule => 12 | .une => 13 | .uno => 14 | .always => 15

/-- The predicate of a code. -/
def ofCode? (code : Int64) : Option FloatPredicate := all.find? (fun pred => pred.code = code)

def name : FloatPredicate → String
  | .never => "false" | .oeq => "oeq" | .ogt => "ogt" | .oge => "oge"
  | .olt => "olt" | .ole => "ole" | .one => "one" | .ord => "ord"
  | .ueq => "ueq" | .ugt => "ugt" | .uge => "uge" | .ult => "ult"
  | .ule => "ule" | .une => "une" | .uno => "uno" | .always => "true"

/-- Whether two floats stand in the relation of the predicate. -/
def holds (pred : FloatPredicate) (lhs rhs : Float) : Bool :=
  let unordered := lhs.isNaN || rhs.isNaN
  match pred with
  | .never => false
  | .always => true
  | .ord => !unordered
  | .uno => unordered
  | .oeq => !unordered && lhs == rhs
  | .ogt => !unordered && lhs > rhs
  | .oge => !unordered && lhs ≥ rhs
  | .olt => !unordered && lhs < rhs
  | .ole => !unordered && lhs ≤ rhs
  | .one => !unordered && lhs != rhs
  | .ueq => unordered || lhs == rhs
  | .ugt => unordered || lhs > rhs
  | .uge => unordered || lhs ≥ rhs
  | .ult => unordered || lhs < rhs
  | .ule => unordered || lhs ≤ rhs
  | .une => unordered || lhs != rhs

theorem ofCode?_code (pred : FloatPredicate) : ofCode? pred.code = some pred := by
  cases pred <;> decide

end FloatPredicate

end AffineKernel
