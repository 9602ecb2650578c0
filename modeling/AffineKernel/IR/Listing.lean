import AffineKernel.IR.Module
import AffineKernel.Table

/-!
# Listings of modules

A module is printed in two stages. The first, `Module.listing`, walks the forest
in block order, gives consecutive numbers to the results and block arguments in
the order in which they are introduced, and resolves every operand: to its
number if it was introduced earlier, and to a placeholder otherwise. The second,
`BlockListing.lines`, writes the listing as text.

Arguments of a block are introduced before its operations, and results of an
operation before the blocks of its regions; the operands of an operation are
resolved before its results are introduced. A number is never given twice.
-/

set_option autoImplicit false

namespace AffineKernel

/-- How an operand appears in a listing. -/
inductive OperandName where
  /-- The number of a value that was introduced earlier. -/
  | number (n : Nat)
  /-- A value that was not. -/
  | placeholder (value : Value)
deriving DecidableEq, Inhabited

mutual

/-- An operation with numbered results, resolved operands and the listings of its regions. -/
inductive OpListing where
  | mk (id : OpId) (operands : List OperandName) (results : List Nat)
      (regions : List BlockListing)

/-- A block with numbered arguments and the listings of its operations. -/
inductive BlockListing where
  | mk (id : BlockId) (args : List Nat) (ops : List OpListing)

end

/-- Numbers given so far. -/
structure Numbering where
  names : Table Value Nat
  next : Nat

namespace Numbering

/-- Nothing is numbered yet. -/
def start : Numbering := ⟨.empty, 0⟩

/-- The number of a value; a value without one receives the next. -/
def introduce (numbering : Numbering) (value : Value) : Nat × Numbering :=
  match numbering.names.find? value with
  | some n => (n, numbering)
  | none => (numbering.next, ⟨numbering.names.insert value numbering.next, numbering.next + 1⟩)

/-- The numbers of a list of values, introduced from left to right. -/
def introduceAll (numbering : Numbering) : List Value → List Nat × Numbering
  | [] => ([], numbering)
  | value :: rest =>
    let (n, numbering) := numbering.introduce value
    let (ns, numbering) := numbering.introduceAll rest
    (n :: ns, numbering)

/-- How a value appears as an operand. -/
def resolve (numbering : Numbering) (value : Value) : OperandName :=
  match numbering.names.find? value with
  | some n => .number n
  | none => .placeholder value

end Numbering

namespace Module

/-! ## First stage: numbering -/

/-- Runs a numbering action over a list from left to right. -/
def listEach {α β : Type} (visit : α → Numbering → β × Numbering) :
    List α → Numbering → List β × Numbering
  | [], numbering => ([], numbering)
  | first :: rest, numbering =>
    let (listed, numbering) := visit first numbering
    let (others, numbering) := listEach visit rest numbering
    (listed :: others, numbering)

/-- Lists an operation, given how to list the blocks of its regions. -/
def listOp (module : Module) (listRegion : BlockId → Numbering → BlockListing × Numbering)
    (id : OpId) (numbering : Numbering) : OpListing × Numbering :=
  match module.op? id with
  | none => (.mk id [] [] [], numbering)
  | some op =>
    let operands := op.operands.map numbering.resolve
    let (results, numbering) :=
      numbering.introduceAll ((List.range op.results.length).map (Value.result id))
    let (regions, numbering) := listEach listRegion op.regions numbering
    (.mk id operands results regions, numbering)

/-- Lists a block and everything in it, to a nesting depth of `fuel`. -/
def listBlock (module : Module) : Nat → BlockId → Numbering → BlockListing × Numbering
  | 0, id, numbering => (.mk id [] [], numbering)
  | fuel + 1, id, numbering =>
    match module.block? id with
    | none => (.mk id [] [], numbering)
    | some block =>
      let (args, numbering) :=
        numbering.introduceAll ((List.range block.args.length).map (Value.arg id))
      let (ops, numbering) := listEach (module.listOp (module.listBlock fuel)) block.ops numbering
      (.mk id args ops, numbering)

/-- The listing of the whole module. Blocks nest no deeper than there are blocks. -/
def listing (module : Module) : BlockListing :=
  (module.listBlock module.blocks.size body .start).1

/-! ## Second stage: text -/

/-- The text of a number or placeholder. -/
def operandText : OperandName → String
  | .number n => "%" ++ n.repr
  | .placeholder value => "<" ++ value.text ++ ">"

/-- An attribute with its name. -/
def attributeText (entry : String × Attribute) : String := entry.1 ++ " = " ++ entry.2.text

/-- Types of the values a module has, in text. -/
def typeText (module : Module) (value : Value) : String :=
  match module.valueType? value with
  | some type => type.text
  | none => ""

/-- The end of an operation: the types of its operands and results, left out if it has neither. -/
def signatureText (module : Module) (op : Operation) : String :=
  let operands := Text.parenthesized (op.operands.map module.typeText)
  match op.operands, op.results with
  | [], [] => ""
  | _, [single] => " : " ++ operands ++ " -> " ++ single.text
  | _, results => " : " ++ operands ++ " -> " ++ Text.parenthesized (results.map ValueType.text)

/-- The beginning of an operation: results, kind, operands and attributes. -/
def headText (op : Operation) (operands : List OperandName) (results : List Nat) : String :=
  let assigned :=
    if results = [] then ""
    else String.intercalate ", " (results.map (fun n => "%" ++ n.repr)) ++ " = "
  let attributes :=
    if op.attributes.isEmpty then ""
    else " \x7b" ++ String.intercalate ", " (op.attributes.map attributeText) ++ "\x7d"
  assigned ++ op.kind.name ++ Text.parenthesized (operands.map operandText) ++ attributes

/-- Two blanks for each level of nesting. -/
def indent (depth : Nat) : String := String.join (List.replicate depth "  ")

/-- The line that introduces the arguments of a block, if it has any. -/
def argsLine (module : Module) (id : BlockId) (args : List Nat) (depth : Nat) : List String :=
  if args = [] then []
  else
    let types := ((module.block? id).map (·.args)).getD []
    let written := (args.zip types).map (fun arg => "%" ++ arg.1.repr ++ ": " ++ arg.2.text)
    [indent depth ++ id.text ++ Text.parenthesized written ++ ":"]

mutual

/-- The lines of an operation: its head opens the first region, each region stands on lines of its
own, and the line that closes the last one carries the types. -/
def opLines (module : Module) (depth : Nat) : OpListing → List String
  | .mk id operands results regions =>
    match module.op? id with
    | none => []
    | some op =>
      regionLines module depth (indent depth ++ headText op operands results)
        (module.signatureText op) regions

/-- The lines of the regions of an operation, after the text that stands before them on their
first line and before the text that stands after them on their last. -/
def regionLines (module : Module) (depth : Nat) (before after : String) :
    List BlockListing → List String
  | [] => [before ++ after]
  | region :: rest =>
    (before ++ " (\x7b") :: (blockLines module depth region ++
      regionLines module depth (indent depth ++ "\x7d)") after rest)

/-- The lines of a block: its arguments, then its operations one level deeper. -/
def blockLines (module : Module) (depth : Nat) : BlockListing → List String
  | .mk id args ops => argsLine module id args depth ++ opListLines module (depth + 1) ops

/-- The lines of the operations of a block. -/
def opListLines (module : Module) (depth : Nat) : List OpListing → List String
  | [] => []
  | op :: rest => opLines module depth op ++ opListLines module depth rest

end

/-- Whether every operand of every operation is a value that the module has. -/
def operandsExist (module : Module) : Bool :=
  module.ops.all fun op => op.operands.all fun value => (module.valueType? value).isSome

/-- The lines of a module. -/
def lines (module : Module) : List String :=
  "module \x7b" :: (module.blockLines 0 module.listing ++ ["\x7d"])

/-- The text of a module, a line end after each line; none if an operand is a value the module does
not have, since such an operand has no type to print. -/
def print? (module : Module) : Option String :=
  if module.operandsExist then some (String.join (module.lines.map (· ++ "\n"))) else none

end Module

end AffineKernel
