import AffineKernel.Affine.Expr

/-!
# Reading affine expressions

The text of an affine expression leaves out the parentheses of sums, so that
different expressions can be written alike. They mean the same: the text alone
determines the value.

To see this, let a reader go through the text from left to right, character by
character, and evaluate on the way. It keeps what it has read of the innermost
open sum: the value of the terms before the last one, whether the last term is
added to them or subtracted, and the last term as far as it was read. An opening
parenthesis puts this aside, and a closing one makes the value of the inner sum
an operand of the outer one. So the reader takes a sum from the left, while the
expression may be nested to the right; both come to the same since sums of words
are associative (`Reader.reads`).

What the reader finds in the text of an expression is the value of the
expression (`AffineExpr.valueOfText_text`).
-/

set_option autoImplicit false

namespace AffineKernel

/-! ## The reader -/

/-- A sum of which a part was read. A value is none if something in it has no value. -/
structure PartialSum where
  /-- The terms before the last one. -/
  total : Option Int64
  /-- Whether the last term is subtracted. -/
  minus : Bool
  /-- The left operand of the last term and its operator, if it has one. -/
  left : Option (Option Int64 × AffineOp)
  /-- The operand that was read last. -/
  operand : Option Int64

namespace PartialSum

/-- A sum of which the terms before the last one were read. -/
def start (total : Option Int64) (minus : Bool) : PartialSum := ⟨total, minus, none, none⟩

/-- The value of an operator, if both operands have one. -/
def join (op : AffineOp) (lhs rhs : Option Int64) : Option Int64 := do
  let a ← lhs
  let b ← rhs
  op.apply a b

/-- The value of the last term. -/
def term (sum : PartialSum) : Option Int64 :=
  match sum.left with
  | none => sum.operand
  | some (lhs, op) => join op lhs sum.operand

/-- The difference, if both operands have a value. -/
def subtract (lhs rhs : Option Int64) : Option Int64 := do
  let a ← lhs
  let b ← rhs
  some (a - b)

/-- The value of the sum. -/
def value (sum : PartialSum) : Option Int64 :=
  if sum.minus then subtract sum.total sum.term else join .add sum.total sum.term

end PartialSum

/-- What a word of a text stands for. -/
inductive Token where
  | nothing
  /-- A new term begins, which is added or subtracted. -/
  | sign (minus : Bool)
  | operator (op : AffineOp)
  | operand (value : Option Int64)

namespace Token

/-- The number that digits stand for. -/
def number (digits : List Char) : Int := Nat.ofDigitChars 10 digits 0

/-- What a word stands for, by its first character. -/
def ofWord (dims symbols : List Int64) : List Char → Token
  | [] => .nothing
  | first :: rest =>
    if first = '+' then .sign false
    else if first = '-' then
      if rest = [] then .sign true else .operand (some (Int64.ofInt (-number rest)))
    else if first = '*' then .operator .mul
    else if first = 'm' then .operator .mod
    else if first = 'f' then .operator .floorDiv
    else if first = 'c' then .operator .ceilDiv
    else if first = 'd' then .operand dims[Nat.ofDigitChars 10 rest 0]?
    else if first = 's' then .operand symbols[Nat.ofDigitChars 10 rest 0]?
    else .operand (some (Int64.ofInt (number (first :: rest))))

end Token

/-- The sum after another word. -/
def PartialSum.take (sum : PartialSum) : Token → PartialSum
  | .nothing => sum
  | .sign minus => .start sum.value minus
  | .operator op => { sum with left := some (sum.operand, op) }
  | .operand value => { sum with operand := value }

/-- A reader in the middle of a text: the word that it is reading, the innermost open sum and the
sums around it. -/
structure Reader where
  word : List Char
  sum : PartialSum
  outer : List PartialSum

namespace Reader

variable (dims symbols : List Int64)

/-- Ends the word. -/
def settle (reader : Reader) : Reader :=
  { reader with word := [], sum := reader.sum.take (.ofWord dims symbols reader.word) }

/-- Opens a parenthesis. -/
def enter (reader : Reader) : Reader :=
  ⟨[], .start (some 0) false, reader.sum :: reader.outer⟩

/-- Closes a parenthesis. -/
def leave (reader : Reader) : Reader :=
  match reader.outer with
  | [] => reader
  | around :: outer => ⟨[], around.take (.operand reader.sum.value), outer⟩

/-- Reads a character. -/
def step (reader : Reader) (char : Char) : Reader :=
  if char = ' ' then reader.settle dims symbols
  else if char = '(' then reader.enter
  else if char = ')' then (reader.settle dims symbols).leave
  else { reader with word := reader.word ++ [char] }

/-- Reads characters. -/
def run (reader : Reader) (chars : List Char) : Reader := chars.foldl (step dims symbols) reader

end Reader

/-- The value that a text stands for. -/
def valueOfText (dims symbols : List Int64) (text : String) : Option Int64 :=
  ((Reader.run dims symbols ⟨[], .start (some 0) false, []⟩ text.toList).settle dims symbols).sum.value

namespace Reader

variable {dims symbols : List Int64}

/-! ## Words -/

theorem run_append (reader : Reader) (chars more : List Char) :
    reader.run dims symbols (chars ++ more) =
      (reader.run dims symbols chars).run dims symbols more := List.foldl_append

/-- Characters that neither separate words nor open or close parentheses. -/
def Plain (chars : List Char) : Prop := ∀ char ∈ chars, char ≠ ' ' ∧ char ≠ '(' ∧ char ≠ ')'

instance : DecidablePred Plain := fun chars => List.decidableBAll _ chars

theorem run_plain {chars : List Char} (plain : Plain chars) (reader : Reader) :
    reader.run dims symbols chars = { reader with word := reader.word ++ chars } := by
  induction chars generalizing reader with
  | nil => simp [run]
  | cons char rest ih =>
      obtain ⟨space, opening, closing⟩ := plain char List.mem_cons_self
      have first : step dims symbols reader char = { reader with word := reader.word ++ [char] } := by
        simp only [step, if_neg space, if_neg opening, if_neg closing]
      have others := ih (fun other member => plain other (List.mem_cons_of_mem char member))
        { reader with word := reader.word ++ [char] }
      rw [run] at others
      rw [run, List.foldl_cons, first, others]
      simp

theorem settle_plain {word : List Char} (plain : Plain word) (sum : PartialSum)
    (outer : List PartialSum) :
    (run dims symbols ⟨[], sum, outer⟩ word).settle dims symbols =
      ⟨[], sum.take (.ofWord dims symbols word), outer⟩ := by
  rw [run_plain plain]
  rfl

/-- A word between blanks. -/
theorem run_between {reader : Reader} {sum : PartialSum} {outer : List PartialSum}
    (settled : reader.settle dims symbols = ⟨[], sum, outer⟩) {word : List Char}
    (plain : Plain word) :
    reader.run dims symbols (' ' :: (word ++ [' '])) =
      ⟨[], sum.take (.ofWord dims symbols word), outer⟩ := by
  have blank : reader.step dims symbols ' ' = ⟨[], sum, outer⟩ := settled
  rw [run, List.foldl_cons, blank, ← settle_plain plain]
  exact run_append _ word [' ']

theorem plain_digits (number : Nat) : Plain number.repr.toList := by
  intro char member
  rw [Nat.toList_repr] at member
  have digit := Nat.isDigit_of_mem_toDigits (by decide) (by decide) member
  refine ⟨?_, ?_, ?_⟩ <;>
  · rintro rfl
    exact absurd digit (by decide)

theorem plain_cons {first : Char} (fine : first ≠ ' ' ∧ first ≠ '(' ∧ first ≠ ')')
    {rest : List Char} (plain : Plain rest) : Plain (first :: rest) :=
  List.forall_mem_cons.mpr ⟨fine, plain⟩

theorem ofDigitChars_repr (number : Nat) : Nat.ofDigitChars 10 number.repr.toList 0 = number := by
  rw [Nat.toList_repr, Nat.ofDigitChars_ten_toDigits]

theorem ofWord_dim (position : Nat) :
    Token.ofWord dims symbols ('d' :: position.repr.toList) = .operand dims[position]? := by
  rw [← congrArg (dims[·]?) (ofDigitChars_repr position)]
  rfl

theorem ofWord_symbol (position : Nat) :
    Token.ofWord dims symbols ('s' :: position.repr.toList) = .operand symbols[position]? := by
  rw [← congrArg (symbols[·]?) (ofDigitChars_repr position)]
  rfl

theorem ofWord_number (number : Nat) :
    Token.ofWord dims symbols number.repr.toList = .operand (some (Int64.ofInt number)) := by
  cases digits : number.repr.toList with
  | nil => exact absurd (Nat.toList_repr ▸ digits) Nat.toDigits_ne_nil
  | cons first rest =>
      have digit : first.isDigit = true := by
        have member : first ∈ Nat.toDigits 10 number := by
          rw [← Nat.toList_repr, digits]
          exact List.mem_cons_self
        exact Nat.isDigit_of_mem_toDigits (by decide) (by decide) member
      have different {other : Char} (letter : other.isDigit = false) : first ≠ other := by
        rintro rfl
        rw [digit] at letter
        cases letter
      have value : Token.number (first :: rest) = number := by
        rw [Token.number, ← digits, ofDigitChars_repr]
      simp only [Token.ofWord, if_neg (different (show '+'.isDigit = false by decide)),
        if_neg (different (show '-'.isDigit = false by decide)),
        if_neg (different (show '*'.isDigit = false by decide)),
        if_neg (different (show 'm'.isDigit = false by decide)),
        if_neg (different (show 'f'.isDigit = false by decide)),
        if_neg (different (show 'c'.isDigit = false by decide)),
        if_neg (different (show 'd'.isDigit = false by decide)),
        if_neg (different (show 's'.isDigit = false by decide)), value]

theorem ofWord_negative (number : Nat) :
    Token.ofWord dims symbols ('-' :: number.repr.toList) =
      .operand (some (Int64.ofInt (-number))) := by
  have digits : number.repr.toList ≠ [] := Nat.toList_repr ▸ Nat.toDigits_ne_nil
  have value : Token.number number.repr.toList = number := by
    rw [Token.number, ofDigitChars_repr]
  simp only [Token.ofWord, show '-' ≠ '+' by decide, if_false, if_true, if_neg digits, value]

/-! ## Operands and sums -/

/-- A text is an operand with a value. -/
def Names (dims symbols : List Int64) (text : String) (value : Option Int64) : Prop :=
  ∀ sum outer, (run dims symbols ⟨[], sum, outer⟩ text.toList).settle dims symbols =
    ⟨[], sum.take (.operand value), outer⟩

/-- Reading a text adds a value to what was read before it. -/
def Adds (dims symbols : List Int64) (text : String) (value : Option Int64) : Prop :=
  ∀ total outer, ∃ last,
    (run dims symbols ⟨[], .start total false, outer⟩ text.toList).settle dims symbols =
        ⟨[], last, outer⟩ ∧
      last.value = PartialSum.join .add total value

theorem names_of_word {text : String} {value : Option Int64} (plain : Plain text.toList)
    (word : Token.ofWord dims symbols text.toList = .operand value) :
    Names dims symbols text value := by
  intro sum outer
  rw [settle_plain plain, word]

theorem Names.adds {text : String} {value : Option Int64} (names : Names dims symbols text value) :
    Adds dims symbols text value :=
  fun total outer => ⟨_, names (.start total false) outer, rfl⟩

theorem join_assoc (a b c : Option Int64) :
    PartialSum.join .add (PartialSum.join .add a b) c =
      PartialSum.join .add a (PartialSum.join .add b c) := by
  cases a with
  | none => rfl
  | some x =>
      cases b with
      | none => rfl
      | some y =>
          cases c with
          | none => rfl
          | some z => exact congrArg some (Int64.add_assoc x y z)

theorem join_zero (value : Option Int64) : PartialSum.join .add (some 0) value = value := by
  cases value with
  | none => rfl
  | some word => exact congrArg some (Int64.zero_add word)

/-- A sum in parentheses is an operand. -/
theorem Adds.enclosed {text : String} {value : Option Int64} (adds : Adds dims symbols text value) :
    Names dims symbols ("(" ++ text ++ ")") value := by
  intro sum outer
  obtain ⟨last, settled, total⟩ := adds (some 0) (sum :: outer)
  have chars : ("(" ++ text ++ ")").toList = '(' :: (text.toList ++ [')']) := by
    simp [String.toList_append]
  have opened : step dims symbols ⟨[], sum, outer⟩ '(' = ⟨[], .start (some 0) false, sum :: outer⟩ :=
    rfl
  have closed (reader : Reader) (ends : reader.settle dims symbols = ⟨[], last, sum :: outer⟩) :
      run dims symbols reader [')'] = ⟨[], sum.take (.operand last.value), outer⟩ := by
    show (reader.settle dims symbols).leave = _
    rw [ends]
    rfl
  have inside : run dims symbols ⟨[], sum, outer⟩ ('(' :: (text.toList ++ [')'])) =
      run dims symbols ⟨[], .start (some 0) false, sum :: outer⟩ (text.toList ++ [')']) := by
    rw [run, List.foldl_cons, opened]
    rfl
  rw [chars, inside, run_append, closed _ settled, total, join_zero]
  rfl

/-- What is read between blanks, and what follows it. -/
theorem run_joined {reader : Reader} {sum : PartialSum} {outer : List PartialSum}
    (settled : reader.settle dims symbols = ⟨[], sum, outer⟩) {word : List Char}
    (plain : Plain word) (rest : List Char) :
    reader.run dims symbols (' ' :: (word ++ ' ' :: rest)) =
      run dims symbols ⟨[], sum.take (.ofWord dims symbols word), outer⟩ rest := by
  have chars : ' ' :: (word ++ ' ' :: rest) = ' ' :: (word ++ [' ']) ++ rest := by simp
  rw [chars, run_append, run_between settled plain]

theorem Adds.add {left right : String} {a b : Option Int64} (first : Adds dims symbols left a)
    (second : Adds dims symbols right b) :
    Adds dims symbols (left ++ " + " ++ right) (PartialSum.join .add a b) := by
  intro total outer
  obtain ⟨middle, settled, reached⟩ := first total outer
  obtain ⟨last, ended, sum⟩ := second middle.value outer
  have chars : (left ++ " + " ++ right).toList = left.toList ++ ' ' :: (['+'] ++ ' ' :: right.toList) := by
    simp [String.toList_append]
  have plain : Plain ['+'] := by decide
  refine ⟨last, ?_, ?_⟩
  · rw [chars, run_append, run_joined settled plain]
    exact ended
  · rw [sum, reached]
    exact join_assoc total a b

theorem Adds.sub {left right : String} {a b c : Option Int64} (first : Adds dims symbols left a)
    (second : Names dims symbols right b)
    (difference : ∀ total, PartialSum.subtract (PartialSum.join .add total a) b =
      PartialSum.join .add total c) :
    Adds dims symbols (left ++ " - " ++ right) c := by
  intro total outer
  obtain ⟨middle, settled, reached⟩ := first total outer
  have chars : (left ++ " - " ++ right).toList = left.toList ++ ' ' :: (['-'] ++ ' ' :: right.toList) := by
    simp [String.toList_append]
  have plain : Plain ['-'] := by decide
  refine ⟨(PartialSum.start middle.value true).take (.operand b), ?_, ?_⟩
  · rw [chars, run_append, run_joined settled plain]
    exact second (.start middle.value true) outer
  · rw [← difference, ← reached]
    rfl

theorem Adds.operator {op : AffineOp} (different : op ≠ .add) {left right : String}
    {a b : Option Int64} (first : Names dims symbols left a) (second : Names dims symbols right b) :
    Adds dims symbols (left ++ " " ++ op.name ++ " " ++ right) (PartialSum.join op a b) := by
  intro total outer
  have chars : (left ++ " " ++ op.name ++ " " ++ right).toList =
      left.toList ++ ' ' :: (op.name.toList ++ ' ' :: right.toList) := by
    simp [String.toList_append]
  have plain : Plain op.name.toList := by cases op <;> decide
  have word : Token.ofWord dims symbols op.name.toList = .operator op := by
    cases op with
    | add => exact absurd rfl different
    | mul | mod | floorDiv | ceilDiv => rfl
  refine ⟨⟨total, false, some (a, op), b⟩, ?_, rfl⟩
  rw [chars, run_append, run_joined (first (.start total false) outer) plain, word]
  exact second _ outer

/-! ## Expressions -/

variable (dims symbols)

theorem constant_names (value : Int64) :
    Names dims symbols (AffineExpr.constant value).text (some value) := by
  have word : Int64.ofInt value.toInt = value := Int64.ofInt_toInt value
  change Names dims symbols value.toInt.repr (some value)
  rw [Int.repr_eq_if]
  split
  · refine names_of_word (plain_digits _) ?_
    rw [ofWord_number, Int.toNat_of_nonneg ‹_›, word]
  · have chars : ("-" ++ (-value.toInt).toNat.repr).toList = '-' :: (-value.toInt).toNat.repr.toList := by
      simp [String.toList_append]
    refine names_of_word (chars ▸ plain_cons (by decide) (plain_digits _)) ?_
    rw [chars, ofWord_negative, Int.toNat_of_nonneg (by omega), Int.neg_neg, word]

theorem dim_names (position : Nat) :
    Names dims symbols (AffineExpr.dim position).text dims[position]? := by
  have chars : ("d" ++ position.repr).toList = 'd' :: position.repr.toList := by
    simp [String.toList_append]
  change Names dims symbols ("d" ++ position.repr) dims[position]?
  refine names_of_word (chars ▸ plain_cons (by decide) (plain_digits position)) ?_
  rw [chars, ofWord_dim]

theorem symbol_names (position : Nat) :
    Names dims symbols (AffineExpr.symbol position).text symbols[position]? := by
  have chars : ("s" ++ position.repr).toList = 's' :: position.repr.toList := by
    simp [String.toList_append]
  change Names dims symbols ("s" ++ position.repr) symbols[position]?
  refine names_of_word (chars ▸ plain_cons (by decide) (plain_digits position)) ?_
  rw [chars, ofWord_symbol]

/-- An operand as it is written beside an operator. -/
theorem operand_names {expr : AffineExpr}
    (adds : Adds dims symbols expr.text (expr.eval dims symbols)) :
    Names dims symbols (expr.enclose expr.text) (expr.eval dims symbols) := by
  cases expr with
  | dim position => exact dim_names dims symbols position
  | symbol position => exact symbol_names dims symbols position
  | constant value => exact constant_names dims symbols value
  | binary op lhs rhs => exact adds.enclosed

/-- The sum with a negative constant, as a difference. -/
theorem subtract_magnitude {value : Int64} (negative : value < 0) (total a : Option Int64) :
    PartialSum.subtract (PartialSum.join .add total a) (some (Int64.ofInt value.toInt.natAbs)) =
      PartialSum.join .add total (PartialSum.join .add a (some value)) := by
  have less : value.toInt < 0 := by simpa [Int64.lt_iff_toInt_lt] using negative
  have magnitude : Int64.ofInt value.toInt.natAbs = -value := by
    rw [Int.ofNat_natAbs_of_nonpos (by omega), Int64.ofInt_neg, Int64.ofInt_toInt]
  rw [← join_assoc, magnitude]
  cases PartialSum.join .add total a with
  | none => rfl
  | some sum => exact congrArg some (by rw [Int64.sub_eq_add_neg, Int64.neg_neg])

/-- The sum with a product by minus one, as a difference. -/
theorem subtract_product (total a factor : Option Int64) :
    PartialSum.subtract (PartialSum.join .add total a) factor =
      PartialSum.join .add total (PartialSum.join .add a (PartialSum.join .mul factor (some (-1)))) := by
  rw [← join_assoc]
  cases PartialSum.join .add total a with
  | none => rfl
  | some sum =>
      cases factor with
      | none => rfl
      | some word =>
          refine congrArg some ?_
          rw [Int64.mul_neg, Int64.mul_one, Int64.sub_eq_add_neg]

theorem operator_adds {op : AffineOp} (different : op ≠ .add) {lhs rhs : AffineExpr}
    (left : Adds dims symbols lhs.text (lhs.eval dims symbols))
    (right : Adds dims symbols rhs.text (rhs.eval dims symbols)) :
    Adds dims symbols
      (lhs.enclose lhs.text ++ " " ++ op.name ++ " " ++ rhs.enclose rhs.text)
      ((AffineExpr.binary op lhs rhs).eval dims symbols) :=
  .operator different (operand_names dims symbols left) (operand_names dims symbols right)

/-- Reading the text of an expression adds the value of the expression. -/
theorem text_adds : ∀ expr : AffineExpr, Adds dims symbols expr.text (expr.eval dims symbols)
  | .dim position => (dim_names dims symbols position).adds
  | .symbol position => (symbol_names dims symbols position).adds
  | .constant value => (constant_names dims symbols value).adds
  | .binary .add lhs (.constant value) => by
      rw [AffineExpr.text]
      split
      · have magnitude : Names dims symbols value.toInt.natAbs.repr
            (some (Int64.ofInt value.toInt.natAbs)) :=
          names_of_word (plain_digits _) (ofWord_number _)
        exact (text_adds lhs).sub magnitude fun total => subtract_magnitude ‹_› total _
      · exact (text_adds lhs).add (text_adds (.constant value))
  | .binary .add lhs (.binary .mul factor scale) => by
      have factor_adds := text_adds factor
      rw [AffineExpr.text]
      split
      · rename_i minus
        subst minus
        exact (text_adds lhs).sub (operand_names dims symbols factor_adds) fun total =>
          subtract_product total _ _
      · have product := operator_adds dims symbols (show AffineOp.mul ≠ .add by decide)
          factor_adds (text_adds scale)
        have times : factor.enclose factor.text ++ " * " ++ scale.enclose scale.text =
            factor.enclose factor.text ++ " " ++ AffineOp.mul.name ++ " " ++
              scale.enclose scale.text := by
          simp only [AffineOp.name, String.append_assoc]
          rfl
        rw [times]
        exact (text_adds lhs).add product
  | .binary .add lhs (.dim position) => (text_adds lhs).add (text_adds (.dim position))
  | .binary .add lhs (.symbol position) => (text_adds lhs).add (text_adds (.symbol position))
  | .binary .add lhs (.binary .add a b) => (text_adds lhs).add (text_adds (.binary .add a b))
  | .binary .add lhs (.binary .mod a b) => (text_adds lhs).add (text_adds (.binary .mod a b))
  | .binary .add lhs (.binary .floorDiv a b) =>
      (text_adds lhs).add (text_adds (.binary .floorDiv a b))
  | .binary .add lhs (.binary .ceilDiv a b) =>
      (text_adds lhs).add (text_adds (.binary .ceilDiv a b))
  | .binary .mul lhs rhs | .binary .mod lhs rhs | .binary .floorDiv lhs rhs
  | .binary .ceilDiv lhs rhs =>
      operator_adds dims symbols (by decide) (text_adds lhs) (text_adds rhs)

end Reader

namespace AffineExpr

/-- What the reader finds in the text of an expression is the value of the expression. -/
theorem valueOfText_text (dims symbols : List Int64) (expr : AffineExpr) :
    valueOfText dims symbols expr.text = expr.eval dims symbols := by
  obtain ⟨last, settled, value⟩ := Reader.text_adds dims symbols expr (some 0) []
  rw [valueOfText, settled, value, Reader.join_zero]

/-- **The text determines the value.** Expressions that are written alike have the same value, or
both have none, whatever their dimensions and symbols are. -/
theorem eval_eq_of_text_eq (first second : AffineExpr) (same : first.text = second.text)
    (dims symbols : List Int64) : first.eval dims symbols = second.eval dims symbols := by
  rw [← valueOfText_text, ← valueOfText_text, same]

/-- A sum that leans to the right and ends in the product of five by minus one. -/
def leaningRight : AffineExpr :=
  .binary .add (.dim 0) (.binary .add (.symbol 0) (.binary .mul (.constant 5) (.constant (-1))))

/-- A sum that leans to the left and ends in minus five. -/
def leaningLeft : AffineExpr :=
  .binary .add (.binary .add (.dim 0) (.symbol 0)) (.constant (-5))

theorem leaning_eval_eq : leaningRight.text = leaningLeft.text ∧ leaningRight ≠ leaningLeft ∧
    leaningRight.eval [Int64.maxValue] [9] = leaningLeft.eval [Int64.maxValue] [9] := by
  have same : leaningRight.text = leaningLeft.text := by decide +kernel
  exact ⟨same, by decide, eval_eq_of_text_eq leaningRight leaningLeft same _ _⟩

end AffineExpr

end AffineKernel
