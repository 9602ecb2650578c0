import AffineKernel.DType.Basic

/-!
# Kinds of operations

The operations come in dialects: integer and float arithmetic, fixed point
arithmetic, mathematical functions, conversions and selection, buffers, and
structured control flow. A kind is written with its dialect, and
`OpKind.ofName?` reads the names back.
-/

set_option autoImplicit false

namespace AffineKernel

/-- What an operation does. -/
inductive OpKind where
  | constant
  | addI
  | subI
  | mulI
  | divSI
  | divUI
  | floorDivSI
  | remSI
  | remUI
  | minSI
  | maxSI
  | minUI
  | maxUI
  | shlI
  | shrSI
  | shrUI
  | andI
  | orI
  | xorI
  | cmpI
  | addF
  | subF
  | mulF
  | divF
  | remF
  | minF
  | maxF
  | negF
  | cmpF
  | addFixed
  | subFixed
  | mulFixed
  | divFixed
  | minFixed
  | maxFixed
  | cmpFixed
  | getBit
  | exp
  | log
  | log2
  | log10
  | sqrt
  | sin
  | cos
  | tanh
  | floor
  | indexCast
  | conversionCast
  | select
  | alloc
  | load
  | store
  | affineFor
  | affineIf
  | yield
  | func
  | call
  | ret
deriving DecidableEq, Inhabited

namespace OpKind

/-- Name of a kind, with its dialect. -/
def name : OpKind → String
  | .constant => "arith.constant"
  | .addI => "arith.addi"
  | .subI => "arith.subi"
  | .mulI => "arith.muli"
  | .divSI => "arith.divsi"
  | .divUI => "arith.divui"
  | .floorDivSI => "arith.floordivsi"
  | .remSI => "arith.remsi"
  | .remUI => "arith.remui"
  | .minSI => "arith.minsi"
  | .maxSI => "arith.maxsi"
  | .minUI => "arith.minui"
  | .maxUI => "arith.maxui"
  | .shlI => "arith.shli"
  | .shrSI => "arith.shrsi"
  | .shrUI => "arith.shrui"
  | .andI => "arith.andi"
  | .orI => "arith.ori"
  | .xorI => "arith.xori"
  | .cmpI => "arith.cmpi"
  | .addF => "arith.addf"
  | .subF => "arith.subf"
  | .mulF => "arith.mulf"
  | .divF => "arith.divf"
  | .remF => "arith.remf"
  | .minF => "arith.minimumf"
  | .maxF => "arith.maximumf"
  | .negF => "arith.negf"
  | .cmpF => "arith.cmpf"
  | .addFixed => "kiln.add_fixed"
  | .subFixed => "kiln.sub_fixed"
  | .mulFixed => "kiln.mul_fixed"
  | .divFixed => "kiln.div_fixed"
  | .minFixed => "kiln.min_fixed"
  | .maxFixed => "kiln.max_fixed"
  | .cmpFixed => "kiln.cmp_fixed"
  | .getBit => "kiln.get_bit"
  | .exp => "math.exp"
  | .log => "math.log"
  | .log2 => "math.log2"
  | .log10 => "math.log10"
  | .sqrt => "math.sqrt"
  | .sin => "math.sin"
  | .cos => "math.cos"
  | .tanh => "math.tanh"
  | .floor => "math.floor"
  | .indexCast => "arith.index_cast"
  | .conversionCast => "builtin.unrealized_conversion_cast"
  | .select => "arith.select"
  | .alloc => "memref.alloc"
  | .load => "affine.load"
  | .store => "affine.store"
  | .affineFor => "affine.for"
  | .affineIf => "affine.if"
  | .yield => "affine.yield"
  | .func => "func.func"
  | .call => "func.call"
  | .ret => "func.return"

/-- Every kind, in the order of the dialects. -/
def all : List OpKind := [
  .constant, .addI, .subI, .mulI, .divSI, .divUI, .floorDivSI, .remSI, .remUI, .minSI, .maxSI,
  .minUI, .maxUI, .shlI, .shrSI, .shrUI, .andI, .orI, .xorI, .cmpI, .addF, .subF, .mulF, .divF,
  .remF, .minF, .maxF, .negF, .cmpF, .addFixed, .subFixed, .mulFixed, .divFixed, .minFixed,
  .maxFixed, .cmpFixed, .getBit, .exp, .log, .log2, .log10, .sqrt, .sin, .cos, .tanh, .floor,
  .indexCast, .conversionCast, .select, .alloc, .load, .store, .affineFor, .affineIf, .yield,
  .func, .call, .ret]

/-- The kind with a given name. -/
def ofName? (name : String) : Option OpKind := all.find? (fun kind => kind.name = name)

/-- Whether an operation of the kind ends its block. -/
def isTerminator : OpKind → Bool
  | .yield | .ret => true
  | _ => false

/-- Whether the kind is a comparison. -/
def isCompare : OpKind → Bool
  | .cmpI | .cmpF | .cmpFixed => true
  | _ => false

/-- The comparison of a category of operands. -/
def compareFor : Category → OpKind
  | .int => .cmpI
  | .float => .cmpF
  | .fixed => .cmpFixed

end OpKind

end AffineKernel
