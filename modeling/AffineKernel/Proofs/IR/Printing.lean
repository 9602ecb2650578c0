import AffineKernel.IR.Listing
import AffineKernel.Proofs.IR.Signature
import AffineKernel.Proofs.IR.Tour

/-!
# Names in printed modules

A printed module is read line by line. Each line is known by what it says
(`Row`): it introduces the arguments of a block, it is the head of an operation,
with the operands and results that appear in it, or it closes a region. Writing
the rows out gives the text (`lines_eq`), and `WritesRow` says how: the number of
every value that a row introduces stands in its line, and so does the name of
every operand.

Printing follows the walk through the module (`Module.tour`), and hands on the
numbers given so far. While nothing is introduced twice, these numbers are the
positions of the values in the list of all that was introduced
(`Numbering.Counts`), so that every row resolves its operands against what the
rows before it introduced (`Follows`). This is shown for the blocks of any depth
by induction on the fuel, and holds of the whole module because its walk meets
everything once.

`print_names_consistent` is the summary: the text has a line for each row, with
the names of the row; every operation heads one row; the values are numbered in
the order in which they are introduced, from zero on and without gaps; an operand
appears as the number of its value if a row before introduces that value, and as
a placeholder otherwise.
-/

set_option autoImplicit false

namespace AffineKernel

/-! ## Rows -/

/-- A line of a printed module, known by what it says. -/
inductive Row where
  | opening
  /-- The arguments of a block. -/
  | args (depth : Nat) (block : BlockId) (numbers : List Nat)
  /-- An operation, up to its first region if it has regions. -/
  | head (depth : Nat) (id : OpId) (operands : List OperandName) (results : List Nat)
      (opens : Bool)
  /-- The end of a region of an operation, up to its next region if there is one. -/
  | close (depth : Nat) (id : OpId) (opens : Bool)
  | ending

/-- Values by their positions, paired with their numbers. -/
def numbered (make : Nat → Value) (numbers : List Nat) : List (Value × Nat) :=
  numbers.zipIdx.map fun named => (make named.2, named.1)

namespace Row

/-- The block or operation that a row introduces the values of. -/
def place? : Row → Option Place
  | args _ block _ => some (.block block)
  | head _ id _ _ _ => some (.op id)
  | _ => none

/-- The operation that a row is the head of. -/
def op? (row : Row) : Option OpId := row.place?.bind Place.op?

/-- The values that a row introduces, with their numbers. -/
def introduced : Row → List (Value × Nat)
  | args _ block numbers => numbered (.arg block) numbers
  | head _ id _ results _ => numbered (.result id) results
  | _ => []

/-- The operands that appear in a row. -/
def operands : Row → List OperandName
  | head _ _ operands _ _ => operands
  | _ => []

end Row

/-- An operand appears as the number of its value, or as a placeholder of a value that is not
known. -/
def AppearsAs (known : List (Value × Nat)) (value : Value) : OperandName → Prop
  | .number n => (value, n) ∈ known
  | .placeholder other => other = value ∧ value ∉ known.map Prod.fst

theorem AppearsAs.exists_number {known : List (Value × Nat)} {value : Value} {name : OperandName}
    (appears : AppearsAs known value name) (member : value ∈ known.map Prod.fst) :
    ∃ n, name = .number n := by
  cases name with
  | number n => exact ⟨n, rfl⟩
  | placeholder other => exact absurd member appears.2

namespace Module

variable {module : Module}

/-- What stands at the end of a line: the beginning of a region, or the types of the operation. -/
def tailText (module : Module) (op : Operation) (opens : Bool) : String :=
  if opens then " (\x7b" else module.signatureText op

/-- The text of a row. -/
def rowText (module : Module) : Row → String
  | .opening => "module \x7b"
  | .args depth block numbers => String.join (module.argsLine block numbers depth)
  | .head depth id operands results opens =>
    match module.op? id with
    | none => ""
    | some op => indent depth ++ headText op operands results ++ module.tailText op opens
  | .close depth id opens =>
    match module.op? id with
    | none => ""
    | some op => indent depth ++ "\x7d)" ++ module.tailText op opens
  | .ending => "\x7d"

mutual

/-- The rows of an operation. -/
def opRows (module : Module) (depth : Nat) : OpListing → List Row
  | .mk id operands results regions =>
    match module.op? id with
    | none => []
    | some _ =>
      .head depth id operands results (!regions.isEmpty) :: regionRows module depth id regions

/-- The rows of the regions of an operation, behind its head. -/
def regionRows (module : Module) (depth : Nat) (id : OpId) : List BlockListing → List Row
  | [] => []
  | region :: rest =>
    blockRows module depth region ++
      .close depth id (!rest.isEmpty) :: regionRows module depth id rest

/-- The rows of a block. -/
def blockRows (module : Module) (depth : Nat) : BlockListing → List Row
  | .mk id args ops =>
    (if args = [] then [] else [.args depth id args]) ++ opListRows module (depth + 1) ops

/-- The rows of the operations of a block. -/
def opListRows (module : Module) (depth : Nat) : List OpListing → List Row
  | [] => []
  | op :: rest => opRows module depth op ++ opListRows module depth rest

end

/-- The rows of a module. -/
def rows (module : Module) : List Row :=
  .opening :: (module.blockRows 0 module.listing ++ [.ending])

theorem argsLine_eq (id : BlockId) (args : List Nat) (depth : Nat) :
    module.argsLine id args depth =
      (if args = [] then [] else [Row.args depth id args]).map module.rowText := by
  by_cases none : args = []
  · simp [argsLine, none]
  · simp [argsLine, none, rowText, String.join]

mutual

theorem opLines_eq (depth : Nat) (listing : OpListing) :
    module.opLines depth listing = (module.opRows depth listing).map module.rowText := by
  obtain ⟨id, operands, results, regions⟩ := listing
  unfold opLines opRows
  cases there : module.op? id with
  | none => rfl
  | some op =>
      dsimp only
      rw [regionLines_eq depth id op there]
      simp only [List.map_cons, rowText, there]

/-- The first of the lines is what stands before the regions, the others are rows. -/
theorem regionLines_eq (depth : Nat) (id : OpId) (op : Operation)
    (there : module.op? id = some op) (before : String) (regions : List BlockListing) :
    module.regionLines depth before (module.signatureText op) regions =
      (before ++ module.tailText op (!regions.isEmpty)) ::
        (module.regionRows depth id regions).map module.rowText := by
  cases regions with
  | nil => simp [regionLines, regionRows, tailText]
  | cons region rest =>
      simp only [regionLines, regionRows, blockLines_eq depth region,
        regionLines_eq depth id op there _ rest, List.map_append, List.map_cons, rowText, there]
      rfl

theorem blockLines_eq (depth : Nat) (listing : BlockListing) :
    module.blockLines depth listing = (module.blockRows depth listing).map module.rowText := by
  obtain ⟨id, args, ops⟩ := listing
  rw [blockLines, blockRows, List.map_append, argsLine_eq, opListLines_eq]

theorem opListLines_eq (depth : Nat) (listing : List OpListing) :
    module.opListLines depth listing = (module.opListRows depth listing).map module.rowText := by
  cases listing with
  | nil => rfl
  | cons op rest =>
      rw [opListLines, opListRows, List.map_append, opLines_eq, opListLines_eq]

end

/-- The lines of a module are its rows, written out. -/
theorem lines_eq : module.lines = module.rows.map module.rowText := by
  simp [lines, rows, blockLines_eq, rowText]

/-! ## Names in lines -/

/-- How the name of an operand is written: a number behind a percent sign, and a value that has no
number between angle brackets. -/
inductive WritesOperand : OperandName → String → Prop where
  | number (n : Nat) : WritesOperand (.number n) ("%" ++ n.repr)
  | placeholder (value : Value) : WritesOperand (.placeholder value) ("<" ++ value.text ++ ">")

/-- How a row is written. The line of a block shows the number of each argument before its type; the
line of an operation shows the numbers of its results before its kind, and its operands behind it.
Only attributes and types follow these. -/
inductive WritesRow (module : Module) : Row → String → Prop where
  | opening : WritesRow module .opening "module \x7b"
  | args {depth : Nat} {id : BlockId} {numbers : List Nat} {block : Block} :
      module.block? id = some block → numbers.length = block.args.length →
      WritesRow module (.args depth id numbers)
        (indent depth ++ id.text ++ "(" ++ String.intercalate ", "
          (List.zipWith (fun n type => "%" ++ n.repr ++ ": " ++ type.text) numbers block.args) ++
            "):")
  | head {depth : Nat} {id : OpId} {op : Operation} {operands : List OperandName}
      {results : List Nat} {shown : List String} {opens : Bool} {rest : String} :
      module.op? id = some op → List.Forall₂ WritesOperand operands shown →
      rest = (if op.attributes = [] then ""
          else " \x7b" ++ String.intercalate ", " (op.attributes.map attributeText) ++ "\x7d") ++
        module.tailText op opens →
      WritesRow module (.head depth id operands results opens)
        (indent depth ++
          (if results = [] then ""
            else String.intercalate ", " (results.map fun n => "%" ++ n.repr) ++ " = ") ++
          op.kind.name ++ "(" ++ String.intercalate ", " shown ++ ")" ++ rest)
  | close {depth : Nat} {id : OpId} {op : Operation} {opens : Bool} :
      module.op? id = some op →
      WritesRow module (.close depth id opens) (indent depth ++ "\x7d)" ++ module.tailText op opens)
  | ending : WritesRow module .ending "\x7d"

theorem writesOperand (name : OperandName) : WritesOperand name (operandText name) := by
  cases name with
  | number n => exact .number n
  | placeholder value => exact .placeholder value

theorem writesRow_args {id : BlockId} {block : Block} (there : module.block? id = some block)
    {numbers : List Nat} (any : numbers ≠ []) (length : numbers.length = block.args.length)
    (depth : Nat) :
    module.WritesRow (.args depth id numbers) (module.rowText (.args depth id numbers)) := by
  have line : module.WritesRow (.args depth id numbers) _ := .args there length
  have zipped : (numbers.zip block.args).map
        (fun arg => "%" ++ arg.1.repr ++ ": " ++ arg.2.text) =
      List.zipWith (fun n type => "%" ++ n.repr ++ ": " ++ type.text) numbers block.args :=
    List.map_zip_eq_zipWith ..
  simp only [rowText, argsLine, if_neg any, there, Option.map_some, Option.getD_some, zipped]
  simpa [Text.parenthesized, String.join, String.append_assoc] using line

theorem writesRow_head {id : OpId} {op : Operation} (there : module.op? id = some op) (depth : Nat)
    (operands : List OperandName) (results : List Nat) (opens : Bool) :
    module.WritesRow (.head depth id operands results opens)
      (module.rowText (.head depth id operands results opens)) := by
  have shown : List.Forall₂ WritesOperand operands (operands.map operandText) :=
    List.forall₂_map_right_iff.mpr (List.forall₂_same.mpr fun name _ => writesOperand name)
  have line : module.WritesRow (.head depth id operands results opens) _ := .head there shown rfl
  simpa [rowText, headText, there, Text.parenthesized, String.append_assoc] using line

theorem writesRow_close {id : OpId} {op : Operation} (there : module.op? id = some op) (depth : Nat)
    (opens : Bool) :
    module.WritesRow (.close depth id opens) (module.rowText (.close depth id opens)) := by
  simp only [rowText, there]
  exact .close there

/-! ## Numbers -/

/-- The places that bring rows of their own: operations, and blocks with arguments. -/
def Speaks (module : Module) : Place → Prop
  | .op _ => True
  | .block id => module.valuesAt (.block id) ≠ []

instance (module : Module) : DecidablePred module.Speaks
  | .op _ => inferInstanceAs (Decidable True)
  | .block id => inferInstanceAs (Decidable (module.valuesAt (.block id) ≠ []))

/-- What a row says fits the values that were introduced before it. -/
structure Fits (module : Module) (known : List (Value × Nat)) (row : Row) : Prop where
  /-- It introduces the values of its place. -/
  values : row.introduced.map Prod.fst =
    match row.place? with
    | some place => module.valuesAt place
    | none => []
  /-- It counts on. -/
  numbers : row.introduced.map Prod.snd = List.range' known.length row.introduced.length
  /-- It resolves operands among the values that are known. -/
  operands : ∀ id, row.op? = some id → ∃ op, module.op? id = some op ∧
    List.Forall₂ (AppearsAs known) op.operands row.operands

/-- Each of the rows fits the values that were introduced before it. -/
def Follows (module : Module) : List (Value × Nat) → List Row → Prop
  | _, [] => True
  | known, row :: rest => module.Fits known row ∧ module.Follows (known ++ row.introduced) rest

end Module

@[simp]
theorem map_snd_numbered (make : Nat → Value) (numbers : List Nat) :
    (numbered make numbers).map Prod.snd = numbers := by
  simp [numbered, Function.comp_def, List.zipIdx_map_fst 0 numbers]

@[simp]
theorem length_numbered (make : Nat → Value) (numbers : List Nat) :
    (numbered make numbers).length = numbers.length := by
  simp [numbered]

/-- Consecutive numbers are those of the positions in a longer list. -/
theorem numbered_range' (make : Nat → Value) (first count : Nat) :
    numbered make (List.range' first count) = ((List.range count).map make).zipIdx first :=
  List.ext_getElem (by simp [numbered]) fun position _ _ => by simp [numbered]

@[simp]
theorem map_fst_numbered (make : Nat → Value) (first count : Nat) :
    (numbered make (List.range' first count)).map Prod.fst = (List.range count).map make := by
  rw [numbered_range', List.zipIdx_map_fst]

/-- The numbering knows the numbers that were given, and gives their count next. -/
structure Numbering.Counts (numbering : Numbering) (known : List (Value × Nat)) : Prop where
  next : numbering.next = known.length
  find? : ∀ value, numbering.names.find? value = known.lookup value

namespace Numbering

variable {numbering : Numbering} {known : List (Value × Nat)}

theorem start_counts : start.Counts [] := ⟨rfl, fun _ => rfl⟩

theorem Counts.resolve (counts : numbering.Counts known) (value : Value) :
    AppearsAs known value (numbering.resolve value) := by
  rw [Numbering.resolve, counts.find?]
  cases searched : known.lookup value with
  | some n =>
      obtain ⟨front, back, split, -⟩ := List.lookup_eq_some_iff.mp searched
      rw [split]
      exact List.mem_append_right front List.mem_cons_self
  | none =>
      refine ⟨rfl, fun member => ?_⟩
      obtain ⟨entry, inside, rfl⟩ := List.mem_map.mp member
      exact bne_iff_ne.mp (List.lookup_eq_none_iff.mp searched entry inside) rfl

/-- A value that is not known yet receives the next number. -/
theorem Counts.introduce (counts : numbering.Counts known) {value : Value}
    (new : value ∉ known.map Prod.fst) :
    ∃ after : Numbering, numbering.introduce value = (known.length, after) ∧
      after.Counts (known ++ [(value, known.length)]) := by
  have absent : known.lookup value = none :=
    List.lookup_eq_none_iff.mpr fun entry member => bne_iff_ne.mpr fun same =>
      new (same ▸ List.mem_map_of_mem member)
  refine ⟨⟨numbering.names.insert value numbering.next, numbering.next + 1⟩, ?_, ?_, ?_⟩
  · rw [Numbering.introduce, counts.find?, absent, counts.next]
  · simp [counts.next]
  · intro other
    rw [Table.find?_insert, counts.next, List.lookup_append, counts.find?]
    by_cases same : value = other
    · subst same
      simp [absent]
    · simp [same, List.lookup_cons, beq_false_of_ne (Ne.symm same)]

/-- Values that are not known yet receive the next numbers. -/
theorem Counts.introduceAll (counts : numbering.Counts known) {values : List Value}
    (once : (known.map Prod.fst ++ values).Nodup) :
    ∃ after : Numbering,
      numbering.introduceAll values = (List.range' known.length values.length, after) ∧
      after.Counts (known ++ values.zipIdx known.length) := by
  induction values generalizing numbering known with
  | nil => exact ⟨numbering, rfl, by simpa using counts⟩
  | cons value rest ih =>
      have new : value ∉ known.map Prod.fst := fun member =>
        (List.nodup_append'.mp once).2.2 member List.mem_cons_self
      obtain ⟨middle, first, counted⟩ := counts.introduce new
      have later : ((known ++ [(value, known.length)]).map Prod.fst ++ rest).Nodup := by
        simpa using once
      obtain ⟨after, others, countedAll⟩ := ih counted later
      refine ⟨after, ?_, by simpa [List.zipIdx_cons] using countedAll⟩
      rw [List.length_append, List.length_singleton] at others
      simp only [Numbering.introduceAll, first, others, List.length_cons, List.range'_succ]

/-- Values that are introduced by their positions receive the next numbers. -/
theorem Counts.introduceRange (counts : numbering.Counts known) {make : Nat → Value} {count : Nat}
    (once : (known.map Prod.fst ++ (List.range count).map make).Nodup) :
    ∃ after : Numbering,
      numbering.introduceAll ((List.range count).map make) =
        (List.range' known.length count, after) ∧
      after.Counts (known ++ numbered make (List.range' known.length count)) := by
  obtain ⟨after, given, counted⟩ := counts.introduceAll once
  rw [List.length_map, List.length_range] at given
  rw [numbered_range']
  exact ⟨after, given, counted⟩

end Numbering

namespace Module

variable {module : Module} {known : List (Value × Nat)}

theorem Follows.append {first second : List Row} (one : module.Follows known first)
    (other : module.Follows (known ++ first.flatMap Row.introduced) second) :
    module.Follows known (first ++ second) := by
  induction first generalizing known with
  | nil => simpa using other
  | cons row rest ih =>
      refine ⟨one.1, ih one.2 ?_⟩
      simpa [List.append_assoc] using other

theorem Follows.of_append {first second : List Row}
    (follows : module.Follows known (first ++ second)) : module.Follows known first := by
  induction first generalizing known with
  | nil => trivial
  | cons row rest ih => exact ⟨follows.1, ih follows.2⟩

/-- Every row fits what was known at first and what the rows before it introduce. -/
theorem Follows.fits {earlier later : List Row} {row : Row}
    (follows : module.Follows known (earlier ++ row :: later)) :
    module.Fits (known ++ earlier.flatMap Row.introduced) row := by
  induction earlier generalizing known with
  | nil => simpa using follows.1
  | cons first rest ih =>
      have fits := ih follows.2
      simpa [List.append_assoc] using fits

/-- Rows count on from what is known. -/
theorem Follows.numbers {rows : List Row} (follows : module.Follows known rows) :
    (rows.flatMap Row.introduced).map Prod.snd =
      List.range' known.length (rows.flatMap Row.introduced).length := by
  induction rows generalizing known with
  | nil => rfl
  | cons row rest ih =>
      have others := ih follows.2
      rw [List.length_append] at others
      rw [List.flatMap_cons, List.map_append, follows.1.numbers, others, List.length_append,
        List.range'_append_1]

/-- The values that rows introduce are those of their places. -/
theorem Follows.values {rows : List Row} (follows : module.Follows known rows) :
    (rows.flatMap Row.introduced).map Prod.fst =
      (rows.filterMap Row.place?).flatMap module.valuesAt := by
  induction rows generalizing known with
  | nil => rfl
  | cons row rest ih =>
      have first := follows.1.values
      rw [List.flatMap_cons, List.map_append, ih follows.2, List.filterMap_cons, first]
      cases row.place? <;> rfl

/-- Places that do not speak bring no values. -/
theorem values_of_speaking (places : List Place) :
    (places.filter module.Speaks).flatMap module.valuesAt = places.flatMap module.valuesAt := by
  induction places with
  | nil => rfl
  | cons place rest ih =>
      by_cases speaks : module.Speaks place
      · simp [speaks, ih]
      · have silent : module.valuesAt place = [] := by
          cases place with
          | op id => exact absurd trivial speaks
          | block id => exact not_not.mp speaks
        simp [speaks, silent, ih]

/-! ## Printing along the walk -/

/-- Rows that print what is met at some places: they are written out, they follow what is known,
they stand in the order of the places, and the numbering afterwards knows what they introduce. -/
structure Prints (module : Module) (known : List (Value × Nat)) (places : List Place)
    (after : Numbering) (rows : List Row) : Prop where
  written : ∀ row ∈ rows, module.WritesRow row (module.rowText row)
  follows : module.Follows known rows
  counts : after.Counts (known ++ rows.flatMap Row.introduced)
  order : rows.filterMap Row.place? = places.filter module.Speaks

namespace Prints

variable {places others : List Place} {numbering middle after : Numbering} {rows more : List Row}

theorem nil (counts : numbering.Counts known) : module.Prints known [] numbering [] :=
  ⟨by simp, trivial, by simpa using counts, rfl⟩

theorem values (prints : module.Prints known places after rows) :
    (rows.flatMap Row.introduced).map Prod.fst = places.flatMap module.valuesAt := by
  rw [prints.follows.values, prints.order, values_of_speaking]

theorem append (first : module.Prints known places middle rows)
    (second : module.Prints (known ++ rows.flatMap Row.introduced) others after more) :
    module.Prints known (places ++ others) after (rows ++ more) where
  written := List.forall_mem_append.mpr ⟨first.written, second.written⟩
  follows := first.follows.append second.follows
  counts := by simpa [List.append_assoc] using second.counts
  order := by rw [List.filterMap_append, List.filter_append, first.order, second.order]

/-- A row for a place, and then the others. -/
theorem cons {place : Place} {row : Row} (written : module.WritesRow row (module.rowText row))
    (fits : module.Fits known row) (here : row.place? = some place) (speaks : module.Speaks place)
    (rest : module.Prints (known ++ row.introduced) places after rows) :
    module.Prints known (place :: places) after (row :: rows) where
  written := List.forall_mem_cons.mpr ⟨written, rest.written⟩
  follows := ⟨fits, rest.follows⟩
  counts := by simpa [List.append_assoc] using rest.counts
  order := by simp [here, speaks, rest.order]

/-- A place without a row, and then the others. -/
theorem skip {place : Place} (silent : ¬ module.Speaks place)
    (rest : module.Prints known places after rows) :
    module.Prints known (place :: places) after rows :=
  ⟨rest.written, rest.follows, rest.counts, by simpa [silent] using rest.order⟩

/-- A row that introduces nothing, and then the others. -/
theorem punctuated {row : Row} (written : module.WritesRow row (module.rowText row))
    (silent : row.place? = none) (rest : module.Prints known places after rows) :
    module.Prints known places after (row :: rows) := by
  have none : row.introduced = [] := by
    cases row <;> first | rfl | cases silent
  have fits : module.Fits known row :=
    { values := by rw [none, silent]; rfl
      numbers := by rw [none]; rfl
      operands := fun id named => by rw [Row.op?, silent] at named; cases named }
  exact ⟨List.forall_mem_cons.mpr ⟨written, rest.written⟩,
    ⟨fits, by simpa [none] using rest.follows⟩, by simpa [none] using rest.counts,
    by simp [silent, rest.order]⟩

end Prints

theorem listEach_cons {α β : Type} (visit : α → Numbering → β × Numbering) (first : α)
    (rest : List α) (numbering : Numbering) :
    listEach visit (first :: rest) numbering =
      ((visit first numbering).1 :: (listEach visit rest (visit first numbering).2).1,
        (listEach visit rest (visit first numbering).2).2) := rfl

/-- Listing a block prints what the walk through it meets, if nothing is introduced twice. -/
def PrintsBlocks (module : Module) (listRegion : BlockId → Numbering → BlockListing × Numbering)
    (inner : BlockId → List Place) : Prop :=
  ∀ (depth : Nat) (block : BlockId) (known : List (Value × Nat)) (numbering : Numbering),
    numbering.Counts known →
    (known.map Prod.fst ++ (inner block).flatMap module.valuesAt).Nodup →
    module.Prints known (inner block) (listRegion block numbering).2
      (module.blockRows depth (listRegion block numbering).1)

namespace PrintsBlocks

variable {listRegion : BlockId → Numbering → BlockListing × Numbering}
  {inner : BlockId → List Place} (prints : module.PrintsBlocks listRegion inner)
  {numbering : Numbering}
include prints

/-- Regions are printed one after the other, each with a row that closes it. -/
theorem regions {id : OpId} {op : Operation} (there : module.op? id = some op) (depth : Nat)
    (regions : List BlockId) (counts : numbering.Counts known)
    (once : (known.map Prod.fst ++ (regions.flatMap inner).flatMap module.valuesAt).Nodup) :
    module.Prints known (regions.flatMap inner) (listEach listRegion regions numbering).2
      (module.regionRows depth id (listEach listRegion regions numbering).1) := by
  induction regions generalizing known numbering with
  | nil => exact .nil counts
  | cons region rest ih =>
      rw [List.flatMap_cons, List.flatMap_append, ← List.append_assoc] at once
      have first := prints depth region known numbering counts once.of_append_left
      rw [← first.values, ← List.map_append] at once
      have others := ih first.counts once
      rw [listEach_cons, List.flatMap_cons]
      exact first.append (others.punctuated (writesRow_close there depth _) rfl)

/-- An operation prints its head, and then its regions. -/
theorem op (depth : Nat) (id : OpId) (counts : numbering.Counts known)
    (once : (known.map Prod.fst ++ (module.tourOp inner id).flatMap module.valuesAt).Nodup) :
    module.Prints known (module.tourOp inner id) (module.listOp listRegion id numbering).2
      (module.opRows depth (module.listOp listRegion id numbering).1) := by
  cases there : module.op? id with
  | none =>
      simp only [tourOp, listOp, opRows, there]
      exact .nil counts
  | some op =>
      have values := valuesAt_op there
      simp only [tourOp, there, List.flatMap_cons, values, ← List.append_assoc] at once
      obtain ⟨after, given, counted⟩ := counts.introduceRange once.of_append_left
      rw [← map_fst_numbered _ known.length, ← List.map_append] at once
      have rest := prints.regions there depth op.regions counted once
      simp only [listOp, opRows, tourOp, there, given]
      refine .cons (writesRow_head there ..) ⟨?_, ?_, fun other named => ?_⟩ rfl trivial rest
      · exact (map_fst_numbered _ _ _).trans values.symm
      · simp [Row.introduced]
      · obtain rfl := Option.some.inj named
        refine ⟨op, there, List.forall₂_map_right_iff.mpr (List.forall₂_same.mpr ?_)⟩
        exact fun value _ => counts.resolve value

/-- The operations of a block are printed one after the other. -/
theorem ops (depth : Nat) (ops : List OpId) (counts : numbering.Counts known)
    (once : (known.map Prod.fst ++
      (ops.flatMap (module.tourOp inner)).flatMap module.valuesAt).Nodup) :
    module.Prints known (ops.flatMap (module.tourOp inner))
      (listEach (module.listOp listRegion) ops numbering).2
      (module.opListRows depth (listEach (module.listOp listRegion) ops numbering).1) := by
  induction ops generalizing known numbering with
  | nil => exact .nil counts
  | cons id rest ih =>
      rw [List.flatMap_cons, List.flatMap_append, ← List.append_assoc] at once
      have first := prints.op depth id counts once.of_append_left
      rw [← first.values, ← List.map_append] at once
      have others := ih first.counts once
      rw [listEach_cons, List.flatMap_cons]
      exact first.append others

end PrintsBlocks

/-- Listing prints what the walk of the same depth meets. -/
theorem printsBlocks_listBlock (fuel : Nat) :
    module.PrintsBlocks (module.listBlock fuel) (module.tourFrom fuel) := by
  induction fuel with
  | zero => exact fun _ _ _ _ counts _ => .nil counts
  | succ fuel ih =>
      intro depth id known numbering counts once
      cases there : module.block? id with
      | none =>
          simp only [listBlock, tourFrom, there]
          exact .nil counts
      | some block =>
          have values := valuesAt_block there
          simp only [tourFrom, there, List.flatMap_cons, values, ← List.append_assoc] at once
          obtain ⟨after, given, counted⟩ := counts.introduceRange once.of_append_left
          rw [← map_fst_numbered _ known.length, ← List.map_append] at once
          have rest := ih.ops (depth + 1) block.ops counted once
          simp only [listBlock, tourFrom, there, given, blockRows]
          by_cases none : block.args.length = 0
          · -- A block without arguments has no row of its own.
            rw [none] at values rest ⊢
            rw [List.range'_zero, numbered, List.zipIdx_nil, List.map_nil, List.append_nil] at rest
            exact rest.skip fun speaks => speaks values
          · have numbers : List.range' known.length block.args.length ≠ [] := by
              simpa using none
            have speaks : module.Speaks (.block id) := by
              intro empty
              rw [values] at empty
              exact none (by simpa using empty)
            rw [if_neg numbers, List.singleton_append]
            have written := writesRow_args there numbers (by simp) depth
            refine .cons written ⟨?_, ?_, fun other named => ?_⟩ rfl speaks rest
            · exact (map_fst_numbered _ _ _).trans values.symm
            · simp [Row.introduced]
            · cases named

/-! ## The whole module -/

/-- The values of the module are known by their numbers in the rows: every operation heads one row,
in the order of the walk; every value is introduced once, and the numbers count from zero in the
order in which the values are introduced; an operand appears as the number of its value if a row
before introduces this value, and as a placeholder otherwise. -/
structure ConsistentNames (module : Module) (rows : List Row) : Prop where
  ops : (rows.filterMap Row.op?).Perm ((List.range module.size).map OpId.mk)
  order : rows.filterMap Row.place? = module.tour.filter module.Speaks
  numbers : (rows.flatMap Row.introduced).map Prod.snd =
    List.range (rows.flatMap Row.introduced).length
  once : ((rows.flatMap Row.introduced).map Prod.fst).Nodup
  values : ∀ value, value ∈ (rows.flatMap Row.introduced).map Prod.fst ↔
    (module.valueType? value).isSome = true
  operands : ∀ (earlier later : List Row) (row : Row) (id : OpId),
    rows = earlier ++ row :: later → row.op? = some id → ∃ op, module.op? id = some op ∧
      List.Forall₂ (AppearsAs (earlier.flatMap Row.introduced)) op.operands row.operands

/-- In block order, every operand is introduced before the operation that uses it. -/
def IntroducesFirst (module : Module) : Prop :=
  ∀ (front back : List Place) (id : OpId) (op : Operation), module.tour = front ++ .op id :: back →
    module.op? id = some op → ∀ value ∈ op.operands, value ∈ front.flatMap module.valuesAt

/-- Of the places, all operations have rows. -/
theorem ops_of_speaking (places : List Place) :
    (places.filter module.Speaks).filterMap Place.op? = places.filterMap Place.op? := by
  induction places with
  | nil => rfl
  | cons place rest ih =>
      cases place with
      | op id =>
          have speaks : module.Speaks (.op id) := trivial
          simp [speaks, ih, List.filterMap_cons]
      | block id =>
          by_cases speaks : module.Speaks (.block id) <;>
            simp [speaks, ih, List.filterMap_cons, Place.op?]

theorem Row.place?_of_op? {row : Row} {id : OpId} (head : row.op? = some id) :
    row.place? = some (.op id) := by
  obtain ⟨place, here, same⟩ := Option.bind_eq_some_iff.mp head
  cases place <;> cases same
  exact here

/-- The rows of an assembled module print what its walk meets. -/
theorem Assembled.prints (assembled : module.Assembled) :
    ∃ after : Numbering, module.Prints [] module.tour after module.rows := by
  have once : (([] : List (Value × Nat)).map Prod.fst ++
      module.tour.flatMap module.valuesAt).Nodup := assembled.values_covered.1
  have printed := printsBlocks_listBlock module.blocks.size 0 body [] .start Numbering.start_counts
    once
  have silent : Row.ending.place? = none := rfl
  have ended := printed.append (.punctuated .ending silent (.nil printed.counts))
  rw [List.append_nil] at ended
  exact ⟨_, .punctuated .opening rfl ended⟩

section Whole

variable (assembled : module.Assembled)
include assembled

theorem Assembled.consistentNames : module.ConsistentNames module.rows := by
  obtain ⟨after, prints⟩ := assembled.prints
  refine ⟨?_, prints.order, ?_, ?_, fun value => ?_, ?_⟩
  · have heads : module.rows.filterMap Row.op? = module.tour.filterMap Place.op? := by
      rw [← ops_of_speaking, ← prints.order, List.filterMap_filterMap]
      rfl
    rw [heads]
    exact assembled.ops_covered
  · have numbers := prints.follows.numbers
    rwa [List.length_nil, ← List.range_eq_range'] at numbers
  · rw [prints.values]
    exact assembled.values_covered.1
  · rw [prints.values]
    exact assembled.values_covered.2 value
  · intro earlier later row id split head
    have follows := prints.follows
    rw [split] at follows
    exact follows.fits.operands id head

/-- The rows before the head of an operation introduce what the walk meets before it. -/
theorem Assembled.known_before {earlier later : List Row} {row : Row} {front back : List Place}
    {id : OpId} (split : module.rows = earlier ++ row :: later) (head : row.op? = some id)
    (met : module.tour = front ++ .op id :: back) :
    (earlier.flatMap Row.introduced).map Prod.fst = front.flatMap module.valuesAt := by
  obtain ⟨after, prints⟩ := assembled.prints
  have once := assembled.tour_covers.1
  have speaks : module.Speaks (.op id) := trivial
  have order := prints.order
  have follows := prints.follows
  rw [met] at once
  rw [split] at follows
  rw [split, met, List.filterMap_append, List.filterMap_cons, Row.place?_of_op? head,
    List.filter_append, List.filter_cons_of_pos (by simpa using speaks)] at order
  -- The walk comes to the operation only once, so that both lists part at the same place.
  obtain ⟨-, -, apart⟩ := List.nodup_append'.mp once
  have notFront : .op id ∉ front.filter module.Speaks := fun member =>
    apart (List.mem_filter.mp member).1 List.mem_cons_self
  have notBack : .op id ∉ back.filter module.Speaks := fun member =>
    (List.nodup_cons.mp once.of_append_right).1 (List.mem_filter.mp member).1
  have same := ((List.append_cons_inj_of_notMem notFront notBack).mp order.symm).1
  rw [follows.of_append.values, ← same, values_of_speaking]

omit assembled in
/-- Operands appear in the head of an operation. -/
theorem exists_op?_of_mem_operands {row : Row} {name : OperandName}
    (appears : name ∈ row.operands) : ∃ id, row.op? = some id := by
  cases row with
  | head depth id operands results opens => exact ⟨id, rfl⟩
  | _ => cases appears

/-- If every operand is introduced before its use in block order, there are no placeholders. -/
theorem Assembled.no_placeholder (first : module.IntroducesFirst) {row : Row}
    (member : row ∈ module.rows) {name : OperandName} (appears : name ∈ row.operands) :
    ∃ n, name = .number n := by
  have consistent := assembled.consistentNames
  obtain ⟨earlier, later, split⟩ := List.append_of_mem member
  obtain ⟨id, head⟩ := exists_op?_of_mem_operands appears
  obtain ⟨op, there, resolved⟩ := consistent.operands earlier later row id split head
  have met : .op id ∈ module.tour := by
    have listed : .op id ∈ module.rows.filterMap Row.place? :=
      List.mem_filterMap.mpr ⟨row, member, Row.place?_of_op? head⟩
    rw [consistent.order] at listed
    exact (List.mem_filter.mp listed).1
  obtain ⟨front, back, walk⟩ := List.append_of_mem met
  obtain ⟨position, small, rfl⟩ := List.getElem_of_mem appears
  have inside : position < op.operands.length := resolved.length_eq.symm ▸ small
  have known := first front back id op walk there _ (List.getElem_mem inside)
  rw [← assembled.known_before split head walk] at known
  exact (resolved.get inside small).exists_number known

/-- The text of an assembled module has a line for each of its rows, which shows the names of the
row, and these names are consistent: every operation heads one row, values are numbered from zero on
in the order in which they are introduced, and operands appear as the numbers of their values. Only
a value that no row before introduces appears as a placeholder, and so there are none if the module
introduces every operand before its use in block order. -/
theorem print_names_consistent (exist : module.operandsExist = true) :
    ∃ lines, module.print? = some (String.join (lines.map fun line => line ++ "\n")) ∧
      List.Forall₂ module.WritesRow module.rows lines ∧
      module.ConsistentNames module.rows ∧
      (module.IntroducesFirst →
        ∀ row ∈ module.rows, ∀ name ∈ row.operands, ∃ n, name = .number n) := by
  obtain ⟨after, prints⟩ := assembled.prints
  refine ⟨module.lines, ?_, ?_, assembled.consistentNames, fun first row member name appears =>
    assembled.no_placeholder first member appears⟩
  · rw [print?, if_pos exist]
  · rw [lines_eq]
    exact List.forall₂_map_right_iff.mpr (List.forall₂_same.mpr prints.written)

end Whole

/-- If creations only use values that the module has, its operands stay among them, so that it can
be printed. -/
theorem operandsExist_create (exist : module.operandsExist = true) {draft : OpDraft}
    (point : InsertionPoint)
    (known : ∀ value ∈ draft.operands, (module.valueType? value).isSome = true) :
    (module.create draft point).2.operandsExist = true := by
  have kept : ∀ value, (module.valueType? value).isSome = true →
      ((module.create draft point).2.valueType? value).isSome = true := by
    intro value typed
    obtain ⟨type, typed⟩ := Option.isSome_iff_exists.mp typed
    rw [(Retains.create module draft point).valueType? typed]
    rfl
  simp only [operandsExist, Array.all_eq_true', List.all_eq_true] at exist ⊢
  intro op member value operand
  rcases Array.mem_push.mp member with old | rfl
  · exact kept value (exist op old value operand)
  · exact kept value (known value operand)

/-- A function with a loop, and in it a product of the sum that stands behind it. -/
def forwardUse : Module :=
  let func := (empty.create
    { kind := .func, regions := [[]], attributes := [("sym_name", .str "f")] } (.atEnd body)).2
  let loop := (func.create { kind := .affineFor, regions := [[.scalar .index]] } (.atEnd ⟨1⟩)).2
  let sum := (loop.create
    { kind := .addI, operands := [.arg ⟨2⟩ 0, .arg ⟨2⟩ 0], results := [.scalar .index] }
    (.atEnd ⟨2⟩)).2
  (sum.create
    { kind := .mulI, operands := [.result ⟨2⟩ 0, .arg ⟨2⟩ 0], results := [.scalar .index] }
    ⟨⟨2⟩, some ⟨2⟩⟩).2

theorem forwardUse_assembled : forwardUse.Assembled :=
  .create _ (.create _ (.create _ (.create _ .empty rfl) rfl) rfl) rfl

/-- In the example with a constant before its loop, only the sum has operands, and it comes last. -/
theorem prependedConstant_introducesFirst : prependedConstant.IntroducesFirst := by
  intro front back id op walk there value operand
  have last : id = ⟨3⟩ := by
    obtain ⟨index⟩ := id
    have small : index < 4 := index_lt_of_op? there
    have used : ∀ other < 3, ((prependedConstant.op? ⟨other⟩).map (·.operands)) = some [] := by
      decide +kernel
    by_contra other
    have none := used index (by
      have different : index ≠ 3 := fun same => other (congrArg OpId.mk same)
      omega)
    rw [there, Option.map_some, Option.some.injEq] at none
    rw [none] at operand
    cases operand
  subst last
  have listed : [.block ⟨0⟩, .op ⟨0⟩, .block ⟨1⟩, .op ⟨2⟩, .op ⟨1⟩, .block ⟨2⟩] ++ .op ⟨3⟩ :: [] =
      front ++ .op ⟨3⟩ :: back := walk
  obtain ⟨rfl, -, -⟩ := (List.append_cons_inj_of_notMem (by decide) (by decide)).mp listed
  obtain rfl := Option.some.inj there
  have values : ∀ value ∈ [.arg ⟨2⟩ 0, .result ⟨2⟩ 0], value ∈
      ([.block ⟨0⟩, .op ⟨0⟩, .block ⟨1⟩, .op ⟨2⟩, .op ⟨1⟩, .block ⟨2⟩] : List Place).flatMap
        prependedConstant.valuesAt := by
    decide +kernel
  exact values value operand

theorem forwardUse_names_consistent :
    forwardUse.Assembled ∧ forwardUse.operandsExist = true ∧
      forwardUse.ConsistentNames forwardUse.rows ∧
      forwardUse.rows = [
        .opening,
        .head 1 ⟨0⟩ [] [] true,
        .head 2 ⟨1⟩ [] [] true,
        .args 2 ⟨2⟩ [0],
        .head 3 ⟨3⟩ [.placeholder (.result ⟨2⟩ 0), .number 0] [1] false,
        .head 3 ⟨2⟩ [.number 0, .number 0] [2] false,
        .close 2 ⟨1⟩ false,
        .close 1 ⟨0⟩ false,
        .ending] ∧
      forwardUse.print? = some (String.join (List.map (fun line => line ++ "\n") [
        "module \x7b",
        "  func.func() \x7bsym_name = \"f\"\x7d (\x7b",
        "    affine.for() (\x7b",
        "    ^bb2(%0: index):",
        "      %1 = arith.muli(<op2#0>, %0) : (index, index) -> index",
        "      %2 = arith.addi(%0, %0) : (index, index) -> index",
        "    \x7d)",
        "  \x7d)",
        "\x7d"])) ∧
      ∀ row ∈ prependedConstant.rows, ∀ name ∈ row.operands, ∃ n, name = .number n := by
  have exist : forwardUse.operandsExist = true := by decide +kernel
  obtain ⟨lines, -, -, consistent, -⟩ := print_names_consistent forwardUse_assembled exist
  obtain ⟨others, -, -, -, numbered⟩ :=
    print_names_consistent prependedConstant_assembled (by decide +kernel)
  exact ⟨forwardUse_assembled, exist, consistent, rfl, by decide +kernel,
    numbered prependedConstant_introducesFirst⟩

end Module

end AffineKernel
