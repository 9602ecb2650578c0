import AffineKernel.Proofs.Semantics.Control

/-!
# What an operation fails for

An operation that fails by itself has a reason in itself and in its frame. If it
fails for want of a value, then the value is one of its operands and is not
defined in the frame. If a number leaves the integers that hold it, then it is
one that the operation computes from what its operands are in the frame: the
quotient of two fixed point numbers, the length of a new buffer, a remainder in
a map or a remainder in the condition of a conditional
(`Machine.Site.Overflows`). The counter of a loop is another matter, since it
grows beyond the words only when the iterations are done
(`Machine.Site.OverCounts`).

An action *fails only* in certain ways (`Machine.FailsOnly`) if it does so on
every machine. There is one lemma for each action that an operation consists of.
-/

set_option autoImplicit false

namespace AffineKernel

/-- Values that are integers in a frame. -/
def Frame.Numbers (frame : Frame) (values : List Value) (numbers : List Int) : Prop :=
  values.map frame.find? = numbers.map fun number => some (.scalar (.int number))

/-- The maps that an operation applies, each with the operands that it applies the map to. -/
inductive Operation.Applies (op : Operation) : AffineMap → List Value → Prop where
  | load {map : AffineMap} : op.kind = .load →
      (op.attr? "map").bind Attribute.asMap? = some map → op.Applies map (op.operands.drop 1)
  | store {map : AffineMap} : op.kind = .store →
      (op.attr? "map").bind Attribute.asMap? = some map → op.Applies map (op.operands.drop 2)
  | lower {lower : AffineMap} : op.kind = .affineFor →
      (op.attr? "lower_bound").bind Attribute.asMap? = some lower →
      op.Applies lower (op.operands.take (lower.dims + lower.symbols))
  | upper {lower upper : AffineMap} : op.kind = .affineFor →
      (op.attr? "lower_bound").bind Attribute.asMap? = some lower →
      (op.attr? "upper_bound").bind Attribute.asMap? = some upper →
      op.Applies upper (op.operands.drop (lower.dims + lower.symbols))

/-! ## Arithmetic -/

namespace Arithmetic

theorem divide_ne_overflow (op : Int → Int → Int) (a b : Int) :
    divide op a b ≠ .error .overflow := by
  unfold divide
  split <;> nofun

/-- Among integers only the quotient of fixed point numbers can be too large. -/
theorem onInts_overflow {kind : OpKind} {dtype : DType} {a b : Int}
    (overflows : onInts kind dtype a b = .error .overflow) : kind = .divFixed := by
  cases kind <;> first | rfl | exact absurd overflows (divide_ne_overflow _ _ _) | cases overflows

theorem onFloats_ne_overflow (kind : OpKind) (a b : Float) :
    onFloats kind a b ≠ .error .overflow := by
  intro overflows
  cases kind <;> cases overflows

/-- Only the quotient of fixed point numbers can be too large for a register. -/
theorem binary_overflow {kind : OpKind} {dtype : DType} {lhs rhs : Scalar}
    (overflows : binary kind dtype lhs rhs = .error .overflow) :
    kind = .divFixed ∧ ∃ a b, lhs = .int a ∧ rhs = .int b ∧
      onInts .divFixed dtype a b = .error .overflow := by
  cases lhs with
  | int a =>
      cases rhs with
      | int b =>
          rw [binary] at overflows
          cases computed : onInts kind dtype a b with
          | ok y =>
              rw [computed] at overflows
              cases overflows
          | error error =>
              rw [computed] at overflows
              cases overflows
              obtain rfl := onInts_overflow computed
              exact ⟨rfl, a, b, rfl, rfl, computed⟩
      | float y => cases overflows
  | float x =>
      cases rhs with
      | int b => cases overflows
      | float y =>
          rw [binary] at overflows
          cases computed : onFloats kind x y with
          | ok z =>
              rw [computed] at overflows
              cases overflows
          | error error =>
              rw [computed] at overflows
              cases overflows
              exact absurd computed (onFloats_ne_overflow kind x y)

end Arithmetic

namespace Machine

variable {α β : Type}

/-! ## Steps in sequence -/

section Sequence

variable {action : Exec α} {next : α → Exec β} {machine after : Machine}

theorem bind_eq_ok {b : β} : (action >>= next) machine = .ok b after ↔
    ∃ a middle, action machine = .ok a middle ∧ next a middle = .ok b after := by
  simp only [Bind.bind, EStateM.bind]
  cases action machine with
  | ok a middle => exact ⟨fun ran => ⟨a, middle, rfl, ran⟩, by rintro ⟨_, _, ⟨⟩, ran⟩; exact ran⟩
  | error error middle => exact ⟨nofun, nofun⟩

theorem bind_eq_error {error : RunError} : (action >>= next) machine = .error error after ↔
    action machine = .error error after ∨
      ∃ a middle, action machine = .ok a middle ∧ next a middle = .error error after := by
  simp only [Bind.bind, EStateM.bind]
  cases action machine with
  | ok a middle =>
      refine ⟨fun failed => .inr ⟨a, middle, rfl, failed⟩, ?_⟩
      rintro (⟨⟨⟩⟩ | ⟨_, _, ⟨⟩, failed⟩)
      exact failed
  | error other middle =>
      constructor
      · rintro ⟨⟩
        exact .inl rfl
      · rintro (⟨⟨⟩⟩ | ⟨_, _, ⟨⟩, -⟩)
        rfl

end Sequence

/-! ## Reasons -/

namespace Site

/-- What an operation computes from its operands leaves the integers that hold it. -/
inductive Overflows (site : Site) (frame : Frame) : Prop where
  /-- A quotient of fixed point numbers is too large for a register. -/
  | quotient {lhs rhs : Value} {a b : Int} :
      site.op.kind = .divFixed → site.op.operands = [lhs, rhs] →
      frame.Numbers [lhs, rhs] [a, b] →
      Arithmetic.onInts .divFixed (site.resultDType?.getD .int64) a b = .error .overflow →
      Overflows site frame
  /-- A buffer is too long. -/
  | length {type : ValueType} : site.op.kind = .alloc → site.op.results.head? = some type →
      Buffer.allocates (type.shape?.getD []) = false → Overflows site frame
  /-- A remainder in a map subtracts a product that is no word. -/
  | remainder {map : AffineMap} {values : List Value} {numbers : List Int} :
      site.op.Applies map values → frame.Numbers values numbers →
      map.overflows ((numbers.map Int64.ofInt).take map.dims)
        ((numbers.map Int64.ofInt).drop map.dims) = true → Overflows site frame
  /-- A remainder in a condition subtracts a product that is no word. -/
  | condition {set : IntegerSet} {numbers : List Int} : site.op.kind = .affineIf →
      (site.op.attr? "condition").bind Attribute.asSet? = some set →
      frame.Numbers site.op.operands numbers →
      set.overflows ((numbers.map Int64.ofInt).take set.dims)
        ((numbers.map Int64.ofInt).drop set.dims) = true → Overflows site frame

/-- The operation is a loop whose counter leaves the words after the last iteration. -/
def OverCounts (site : Site) (frame : Frame) : Prop :=
  site.op.kind = .affineFor ∧ ∃ range before after,
    site.loopRange frame before = .ok range after ∧ range.overflows = true

/-- The reason that a failure gives is found in the operation and its frame. -/
def Explains (site : Site) (frame : Frame) : RunError → Prop
  | .undefinedValue value => value ∈ site.op.operands ∧ frame.find? value = none
  | .overflow id kind => id = site.id ∧ kind = site.op.kind ∧ site.Overflows frame
  | _ => True

end Site

/-! ## Actions that fail in certain ways only -/

/-- An action fails only in ways that are allowed. -/
def FailsOnly (allowed : RunError → Prop) (action : Exec α) : Prop :=
  ∀ machine error after, action machine = .error error after → allowed error

namespace FailsOnly

variable {allowed wider : RunError → Prop} {action : Exec β} {next : β → Exec α}

/-- An action that ends well on every machine. -/
theorem of_ok (ends : ∀ machine, ∃ b after, action machine = .ok b after) :
    FailsOnly allowed action := by
  intro machine error after failed
  obtain ⟨b, later, ended⟩ := ends machine
  cases ended.symm.trans failed

theorem pure (a : α) : FailsOnly allowed (Pure.pure a : Exec α) :=
  of_ok fun machine => ⟨a, machine, rfl⟩

theorem throw {error : RunError} (reason : allowed error) :
    FailsOnly allowed (MonadExcept.throw error : Exec α) := by
  intro machine other after same
  exact (EStateM.Result.error.inj same).1 ▸ reason

theorem mono (fails : FailsOnly allowed action) (implied : ∀ error, allowed error → wider error) :
    FailsOnly wider action :=
  fun machine error after failed => implied error (fails machine error after failed)

theorem bind (first : FailsOnly allowed action)
    (second : ∀ b before after, action before = .ok b after → FailsOnly allowed (next b)) :
    FailsOnly allowed (action >>= next) := by
  intro machine error after failed
  simp only [Bind.bind, EStateM.bind] at failed
  cases ran : action machine with
  | ok b middle =>
      rw [ran] at failed
      exact second b machine middle ran middle error after failed
  | error reason middle =>
      rw [ran] at failed
      exact (EStateM.Result.error.inj failed).1 ▸ first machine reason middle ran

/-- An action and then another one, whatever the first one ends in. -/
theorem andThen (first : FailsOnly allowed action) (second : ∀ b, FailsOnly allowed (next b)) :
    FailsOnly allowed (action >>= next) := first.bind fun b _ _ _ => second b

theorem throw_bind {error : RunError} (reason : allowed error) :
    FailsOnly allowed ((MonadExcept.throw error : Exec β) >>= next) :=
  (throw reason).bind fun _ _ _ ran => by cases ran

theorem get : FailsOnly allowed (get : Exec Machine) :=
  of_ok fun machine => ⟨machine, machine, rfl⟩

theorem set (machine : Machine) : FailsOnly allowed (set machine : Exec PUnit) :=
  of_ok fun _ => ⟨⟨⟩, machine, rfl⟩

theorem modify (change : Machine → Machine) : FailsOnly allowed (modify change : Exec PUnit) :=
  of_ok fun machine => ⟨⟨⟩, change machine, rfl⟩

theorem require (reason : allowed .malformed) (found : Option α) :
    FailsOnly allowed (require found) := by
  cases found with
  | none => exact throw reason
  | some a => exact pure a

theorem mapM {γ : Type} {step : γ → Exec β} {items : List γ}
    (each : ∀ item ∈ items, FailsOnly allowed (step item)) :
    FailsOnly allowed (items.mapM step) := by
  induction items with
  | nil => exact pure []
  | cons item rest ih =>
      rw [List.mapM_cons]
      refine (each item List.mem_cons_self).andThen fun first => ?_
      exact (ih fun other member => each other (List.mem_cons_of_mem item member)).andThen
        fun others => pure (first :: others)

/-- A loop fails only as its body does. -/
theorem iterate {body : Int → Exec Unit} (each : ∀ number, FailsOnly allowed (body number))
    (step : Int) : ∀ (count : Nat) (current : Int),
      FailsOnly allowed (Machine.iterate body step count current)
  | 0, _ => pure ()
  | count + 1, current => (each current).andThen fun _ => iterate each step count (current + step)

end FailsOnly

/-! ## Operands -/

namespace Site

variable (site : Site) {frame : Frame}

theorem lookup_explains {value : Value} (member : value ∈ site.op.operands) :
    FailsOnly (site.Explains frame) (lookup frame value) := by
  unfold lookup
  cases found : frame.find? value with
  | none => exact .throw ⟨member, found⟩
  | some datum => exact .pure datum

theorem operand_explains_bind {position : Nat} {next : Value → Exec α}
    (each : ∀ operand ∈ site.op.operands, FailsOnly (site.Explains frame) (next operand)) :
    FailsOnly (site.Explains frame) (site.operand position >>= next) := by
  unfold operand
  cases found : site.op.operands[position]? with
  | none => exact .throw_bind trivial
  | some operand => exact each operand (List.mem_of_getElem? found)

theorem operandDType_explains (position : Nat) :
    FailsOnly (site.Explains frame) (site.operandDType position) :=
  site.operand_explains_bind fun _ _ => (FailsOnly.require trivial _).andThen fun _ => .pure _

theorem scalar_explains {value : Value} (member : value ∈ site.op.operands) :
    FailsOnly (site.Explains frame) (site.scalar frame value) := by
  refine (site.lookup_explains member).andThen fun datum => ?_
  cases datum with
  | scalar scalar => exact .pure scalar
  | buffer handle => exact .throw trivial

theorem int_explains {value : Value} (member : value ∈ site.op.operands) :
    FailsOnly (site.Explains frame) (site.int frame value) := by
  refine (site.scalar_explains member).andThen fun scalar => ?_
  cases scalar with
  | int number => exact .pure number
  | float x => exact .throw trivial

theorem float_explains {value : Value} (member : value ∈ site.op.operands) :
    FailsOnly (site.Explains frame) (site.float frame value) := by
  refine (site.scalar_explains member).andThen fun scalar => ?_
  cases scalar with
  | int number => exact .throw trivial
  | float x => exact .pure x

theorem buffer_explains {value : Value} (member : value ∈ site.op.operands) :
    FailsOnly (site.Explains frame) (site.buffer frame value) := by
  refine (site.lookup_explains member).andThen fun datum => ?_
  cases datum with
  | scalar scalar => exact .throw trivial
  | buffer handle => exact .pure handle

section Found

variable {value : Value} {before after : Machine}

/-- What is looked up is in the frame. -/
theorem find?_of_lookup {datum : Datum} (read : lookup frame value before = .ok datum after) :
    frame.find? value = some datum := by
  unfold lookup at read
  cases found : frame.find? value with
  | none =>
      rw [found] at read
      cases read
  | some other =>
      rw [found] at read
      cases read
      rfl

theorem find?_of_scalar {scalar : Scalar} (read : site.scalar frame value before = .ok scalar after) :
    frame.find? value = some (.scalar scalar) := by
  obtain ⟨datum, _, given, read⟩ := bind_eq_ok.mp read
  cases datum with
  | scalar other =>
      cases read
      exact find?_of_lookup given
  | buffer handle => cases read

theorem find?_of_int {number : Int} (read : site.int frame value before = .ok number after) :
    frame.find? value = some (.scalar (.int number)) := by
  obtain ⟨scalar, _, given, read⟩ := bind_eq_ok.mp read
  cases scalar with
  | int other =>
      cases read
      exact site.find?_of_scalar given
  | float x => cases read

end Found

/-! ## Attributes and maps -/

theorem attr_explains (name : String) (form : Attribute → Option α) :
    FailsOnly (site.Explains frame) (site.attr name form) := by
  unfold attr
  cases (site.op.attr? name).bind form with
  | none => exact .throw trivial
  | some a => exact .pure a

theorem attr_eq_some {name : String} {form : Attribute → Option α} {a : α}
    {before after : Machine} (ran : site.attr name form before = .ok a after) :
    (site.op.attr? name).bind form = some a := by
  unfold attr at ran
  cases known : (site.op.attr? name).bind form with
  | none =>
      rw [known] at ran
      cases ran
  | some b =>
      rw [known] at ran
      cases ran
      rfl

theorem words_explains {values : List Value} (members : ∀ value ∈ values, value ∈ site.op.operands) :
    FailsOnly (site.Explains frame) (site.words frame values) :=
  .mapM fun value listed => (site.int_explains (members value listed)).andThen fun _ => .pure _

/-- Words that are read are those of integers in the frame. -/
theorem exists_numbers_of_words {values : List Value} {words : List Int64}
    {before after : Machine} (read : site.words frame values before = .ok words after) :
    ∃ numbers, frame.Numbers values numbers ∧ words = numbers.map Int64.ofInt := by
  induction values generalizing words before after with
  | nil =>
      cases read
      exact ⟨[], rfl, rfl⟩
  | cons value rest ih =>
      rw [Site.words, List.mapM_cons] at read
      obtain ⟨word, middle, first, read⟩ := bind_eq_ok.mp read
      obtain ⟨others, last, later, read⟩ := bind_eq_ok.mp read
      obtain ⟨number, _, held, first⟩ := bind_eq_ok.mp first
      obtain ⟨numbers, given, rfl⟩ := ih later
      cases first
      cases read
      have found := site.find?_of_int held
      exact ⟨number :: numbers, by simp [Frame.Numbers, found, show _ = _ from given], rfl⟩

theorem defined_explains (found : Option α) :
    FailsOnly (site.Explains frame) (site.defined found) := by
  cases found with
  | none => exact .throw trivial
  | some a => exact .pure a

/-- What is checked fails only with an overflow. -/
theorem checked_fails {allowed : RunError → Prop}
    (reason : allowed (.overflow site.id site.op.kind)) (overflows : Bool) :
    FailsOnly allowed (site.checked overflows) := by
  cases overflows with
  | false => exact .pure ()
  | true => exact .throw reason

theorem checked_explains {overflows : Bool}
    (reason : overflows = true → site.Overflows frame) :
    FailsOnly (site.Explains frame) (site.checked overflows) := by
  cases overflows with
  | false => exact .pure ()
  | true => exact .throw ⟨rfl, rfl, reason rfl⟩

/-- A map that an operation applies. -/
theorem evalMap_explains {map : AffineMap} {values : List Value} {words : List Int64}
    {before after : Machine} (applies : site.op.Applies map values)
    (read : site.words frame values before = .ok words after) :
    FailsOnly (site.Explains frame) (site.evalMap map words) := by
  refine (site.checked_explains fun overflows => ?_).andThen fun _ => site.defined_explains _
  obtain ⟨numbers, given, rfl⟩ := site.exists_numbers_of_words read
  exact .remainder applies given overflows

theorem access_explains {values : List Value}
    (members : ∀ value ∈ values, value ∈ site.op.operands)
    (applies : ∀ map, (site.op.attr? "map").bind Attribute.asMap? = some map →
      site.op.Applies map values) :
    FailsOnly (site.Explains frame) (site.access frame values) := by
  refine (site.attr_explains _ _).bind fun map _ _ known => ?_
  refine (site.words_explains members).bind fun words _ _ read => ?_
  exact site.evalMap_explains (applies map (site.attr_eq_some known)) read

/-! ## Operations -/

theorem constant_explains : FailsOnly (site.Explains frame) site.constant := by
  unfold constant
  dsimp only
  split
  · exact .pure _
  · exact .pure _
  · exact .throw trivial

theorem compareInts_explains : FailsOnly (site.Explains frame) (site.compareInts frame) := by
  refine (site.attr_explains _ _).andThen fun pred => ?_
  refine (site.operandDType_explains 0).andThen fun dtype => ?_
  refine site.operand_explains_bind fun first member => ?_
  refine (site.int_explains member).andThen fun lhs => ?_
  exact site.operand_explains_bind fun second listed =>
    (site.int_explains listed).andThen fun rhs => .pure _

theorem compareFloats_explains : FailsOnly (site.Explains frame) (site.compareFloats frame) := by
  refine (site.attr_explains _ _).andThen fun pred => ?_
  refine site.operand_explains_bind fun first member => ?_
  refine (site.float_explains member).andThen fun lhs => ?_
  exact site.operand_explains_bind fun second listed =>
    (site.float_explains listed).andThen fun rhs => .pure _

theorem cast_explains : FailsOnly (site.Explains frame) (site.cast frame) :=
  site.operand_explains_bind fun _ member => (site.scalar_explains member).andThen fun _ =>
    (site.operandDType_explains 0).andThen fun _ => .pure _

theorem select_explains : FailsOnly (site.Explains frame) (site.select frame) :=
  site.operand_explains_bind fun _ member => (site.int_explains member).andThen fun _ =>
    site.operand_explains_bind fun _ listed => site.scalar_explains listed

theorem getBit_explains : FailsOnly (site.Explains frame) (site.getBit frame) :=
  site.operand_explains_bind fun _ member => (site.int_explains member).andThen fun _ =>
    site.operand_explains_bind fun _ listed => (site.int_explains listed).andThen fun _ =>
      (site.operandDType_explains 0).andThen fun _ => .pure _

theorem binary_explains {lhs rhs : Value} {a b : Scalar} (operands : site.op.operands = [lhs, rhs])
    (left : frame.find? lhs = some (.scalar a)) (right : frame.find? rhs = some (.scalar b)) :
    FailsOnly (site.Explains frame) (site.binary (site.resultDType?.getD .int64) a b) := by
  unfold binary
  split
  · exact .pure _
  · exact .throw trivial
  · exact .throw trivial
  · rename_i failed
    obtain ⟨kind, a, b, rfl, rfl, overflows⟩ := Arithmetic.binary_overflow failed
    have given : frame.Numbers [lhs, rhs] [a, b] := by simp [Frame.Numbers, left, right]
    exact .throw ⟨rfl, rfl, .quotient kind operands given overflows⟩

theorem unary_explains (dtype : DType) (scalar : Scalar) :
    FailsOnly (site.Explains frame) (site.unary dtype scalar) := by
  unfold unary
  split
  · exact (FailsOnly.modify _).andThen fun _ => .pure _
  · exact .throw trivial

theorem arithmetic_explains : FailsOnly (site.Explains frame) (site.arithmetic frame) := by
  unfold arithmetic
  dsimp only
  split
  · rename_i x operands
    have member : x ∈ site.op.operands := by simp [operands]
    exact (site.scalar_explains member).andThen fun _ => site.unary_explains _ _
  · rename_i lhs rhs operands
    have first : lhs ∈ site.op.operands := by simp [operands]
    have second : rhs ∈ site.op.operands := by simp [operands]
    refine (site.scalar_explains first).bind fun a _ _ left => ?_
    refine (site.scalar_explains second).bind fun b _ _ right => ?_
    exact site.binary_explains operands (site.find?_of_scalar left) (site.find?_of_scalar right)
  · exact .throw trivial

theorem alloc_explains (kind : site.op.kind = .alloc) : FailsOnly (site.Explains frame) site.alloc := by
  unfold alloc
  cases first : site.op.results.head? with
  | none => exact .throw_bind trivial
  | some type =>
      rw [require_some, pure_bind]
      refine (site.checked_explains fun overflows => ?_).andThen fun _ => FailsOnly.get.andThen
        fun _ => (FailsOnly.set _).andThen fun _ => .pure _
      exact .length kind first (by simpa using overflows)

theorem load_explains (kind : site.op.kind = .load) :
    FailsOnly (site.Explains frame) (site.load frame) := by
  refine site.operand_explains_bind fun memref member => ?_
  refine (site.buffer_explains member).andThen fun handle => ?_
  refine (site.access_explains (fun _ => List.mem_of_mem_drop) fun _ => .load kind).andThen
    fun indices => ?_
  refine FailsOnly.get.andThen fun machine => (FailsOnly.require trivial _).andThen fun buffer => ?_
  cases buffer.get? indices with
  | none => exact .throw trivial
  | some scalar => exact .pure scalar

theorem store_explains (kind : site.op.kind = .store) :
    FailsOnly (site.Explains frame) (site.store frame) := by
  refine site.operand_explains_bind fun first member => ?_
  refine (site.scalar_explains member).andThen fun scalar => ?_
  refine site.operand_explains_bind fun memref listed => ?_
  refine (site.buffer_explains listed).andThen fun handle => ?_
  refine (site.access_explains (fun _ => List.mem_of_mem_drop) fun _ => .store kind).andThen
    fun indices => ?_
  refine (FailsOnly.get.andThen fun machine => FailsOnly.require trivial _).andThen fun shape => ?_
  cases Buffer.offset? shape indices with
  | none => exact .throw trivial
  | some offset => exact .modify _

theorem loopRange_explains (kind : site.op.kind = .affineFor) :
    FailsOnly (site.Explains frame) (site.loopRange frame) := by
  refine (site.attr_explains _ _).bind fun lower _ _ lowerKnown => ?_
  refine (site.attr_explains _ _).bind fun upper _ _ upperKnown => ?_
  refine (site.attr_explains _ _).andThen fun step => ?_
  refine (site.words_explains fun _ => List.mem_of_mem_take).bind fun first _ _ lowerRead => ?_
  refine (site.words_explains fun _ => List.mem_of_mem_drop).bind fun second _ _ upperRead => ?_
  have lowerKnown := site.attr_eq_some lowerKnown
  have upperKnown := site.attr_eq_some upperKnown
  refine (site.evalMap_explains (.lower kind lowerKnown) lowerRead).andThen fun _ => ?_
  exact (site.evalMap_explains (.upper kind lowerKnown upperKnown) upperRead).andThen
    fun _ => .pure _

theorem branch_explains (kind : site.op.kind = .affineIf) :
    FailsOnly (site.Explains frame) (site.branch frame) := by
  refine (site.attr_explains _ _).bind fun condition _ _ known => ?_
  refine (site.words_explains fun _ member => member).bind fun words _ _ read => ?_
  refine (site.checked_explains fun overflows => ?_).andThen fun _ =>
    (site.defined_explains _).andThen fun _ => .pure _
  obtain ⟨numbers, given, rfl⟩ := site.exists_numbers_of_words read
  exact .condition kind (site.attr_eq_some known) given overflows

/-- The region that a conditional runs is one of its regions. -/
theorem mem_regions_of_branch {body : BlockId} {before after : Machine}
    (chosen : site.branch frame before = .ok (some body) after) : body ∈ site.op.regions := by
  obtain ⟨condition, _, -, chosen⟩ := bind_eq_ok.mp chosen
  obtain ⟨words, _, -, chosen⟩ := bind_eq_ok.mp chosen
  obtain ⟨_, _, -, chosen⟩ := bind_eq_ok.mp chosen
  obtain ⟨taken, _, -, chosen⟩ := bind_eq_ok.mp chosen
  exact List.mem_of_getElem? (EStateM.Result.ok.inj chosen).1

end Site

end Machine

end AffineKernel
