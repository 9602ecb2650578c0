import AffineKernel.Proofs.Semantics.Calls
import AffineKernel.Proofs.Semantics.Typing

/-!
# Reported failures

Most failures of a run tell the caller what is wrong with what was computed. Two
say nothing about it: that blocks nest too deeply, and that an operation lacks
something that its kind cannot do without. The first one depends on the depth that
the caller allows, the second one on the module: an operation is complete
(`Operation.Complete`) when it has enough operands, with types that a kernel can
have, and the result or the region that its kind asks for. That a number leaves
the integers that hold it depends on the data, and is not spoken of here.

An action *ends* (`Machine.Ends`) when it has a result or a failure of another
sort. For a load or a store this takes an invariant: the handles that a frame
holds are handles of buffers of the heap, from which no buffer is ever lost. The
blocks that an operation executes are taken to end; that they do is a matter of
the depth.
-/

set_option autoImplicit false

namespace AffineKernel

/-! ## Complete operations -/

/-- The number of operands that an operation of a kind cannot do without. -/
def OpKind.arity : OpKind → Nat
  | .load | .indexCast | .conversionCast => 1
  | .store | .getBit | .cmpI | .cmpFixed | .cmpF => 2
  | .select => 3
  | _ => 0

/-- An operation that has what its kind cannot do without. -/
structure Operation.Complete (module : Module) (op : Operation) : Prop where
  operands : op.kind.arity ≤ op.operands.length
  /-- Every operand is a value that the module has. -/
  typed : ∀ value ∈ op.operands, (module.valueType? value).isSome = true
  result : op.kind = .alloc → op.results ≠ []
  region : op.kind = .affineFor → op.regions ≠ []
  /-- Its types are ones that a kernel can have. -/
  proper : (∀ value ∈ op.operands, ∀ type ∈ module.valueType? value, type.dtype.Proper) ∧
    (∀ type ∈ op.results, type.dtype.Proper) ∧
    (op.kind = .constant → ∀ attr ∈ op.attr? "value", attr.Proper)

instance (module : Module) (op : Operation) : Decidable (op.Complete module) :=
  decidable_of_iff
    (op.kind.arity ≤ op.operands.length ∧
      (∀ value ∈ op.operands, (module.valueType? value).isSome = true) ∧
      (op.kind = .alloc → op.results ≠ []) ∧ (op.kind = .affineFor → op.regions ≠ []) ∧
      (∀ value ∈ op.operands, ∀ type ∈ module.valueType? value, type.dtype.Proper) ∧
      (∀ type ∈ op.results, type.dtype.Proper) ∧
      (op.kind = .constant → ∀ attr ∈ op.attr? "value", attr.Proper))
    ⟨fun ⟨operands, typed, result, region, proper⟩ => ⟨operands, typed, result, region, proper⟩,
      fun ⟨operands, typed, result, region, proper⟩ => ⟨operands, typed, result, region, proper⟩⟩

/-- All operations of a module are complete. -/
def Module.Complete (module : Module) : Prop :=
  ∀ position < module.ops.size, ∀ op ∈ module.op? ⟨position⟩, op.Complete module

instance (module : Module) : Decidable module.Complete :=
  inferInstanceAs (Decidable (∀ position < module.ops.size, ∀ op ∈ module.op? ⟨position⟩,
    op.Complete module))

theorem Module.Complete.op {module : Module} (complete : module.Complete) {id : OpId}
    {op : Operation} (found : module.op? id = some op) : op.Complete module :=
  complete id.index (index_lt_of_op? found) op found

/-- A failure that does not depend on the depth allowed and, if the operations are complete, does not
say that one is incomplete. -/
def RunError.Reported (complete : Prop) (error : RunError) : Prop :=
  error ≠ .depthExceeded ∧ (complete → error ≠ .malformed)

/-! ## Handles of the heap -/

/-- A scalar, or the handle of a buffer of a heap with a number of buffers. -/
def Datum.Held (count : Nat) : Datum → Prop
  | .scalar _ => True
  | .buffer handle => handle < count

/-- All handles in a frame are of buffers of the heap. -/
def Frame.Held (count : Nat) (frame : Frame) : Prop := frame.Holds fun _ datum => datum.Held count

/-- All handles in what an operation ends in are of buffers of the heap. -/
def Step.Held (count : Nat) : Step → Prop
  | .next frame => frame.Held count
  | .returned values => ∀ datum ∈ values, datum.Held count

section Handles

variable {count more : Nat} {frame : Frame} {datum : Datum}

theorem Datum.Held.mono (held : datum.Held count) (le : count ≤ more) : datum.Held more := by
  cases datum with
  | scalar scalar => trivial
  | buffer handle => exact Nat.lt_of_lt_of_le held le

namespace Frame.Held

theorem mono (held : frame.Held count) (le : count ≤ more) : frame.Held more :=
  Holds.mono held fun _ _ good => good.mono le

theorem nil : Frame.Held count [] := nofun

theorem enter (held : frame.Held count) {args : List Datum}
    (good : ∀ datum ∈ args, datum.Held count) (block : BlockId) :
    (frame.enter block args).Held count :=
  Holds.enter held fun _ datum given => good datum (List.mem_of_getElem? given)

theorem binding (held : frame.Held count) (id : OpId) {bound : List Datum}
    (good : ∀ datum ∈ bound, datum.Held count) : (frame.binding id bound).Held count := by
  induction bound using List.reverseRecOn with
  | nil => exact held
  | append_singleton earlier datum ih =>
      rw [Frame.binding_append]
      refine Holds.define (ih fun other listed => good other (List.mem_append_left _ listed)) ?_
      exact good datum (List.mem_append_right _ List.mem_cons_self)

end Frame.Held

end Handles

namespace Machine

variable {α β : Type} {complete : Prop} {count : Nat}

/-! ## Actions that end -/

/-- On a heap with a number of buffers at least, an action loses no buffer and has a result that is
good for the number of buffers then, or it ends in a reported failure. -/
def Ends (complete : Prop) (count : Nat) (action : Exec α) (good : Nat → α → Prop) : Prop :=
  ∀ machine, count ≤ machine.heap.size →
    match action machine with
    | .ok a last => machine.heap.size ≤ last.heap.size ∧ good last.heap.size a
    | .error error _ => error.Reported complete

namespace Ends

variable {action : Exec β} {next : β → Exec α} {good : Nat → α → Prop}

theorem pure {a : α} (holds : ∀ size, count ≤ size → good size a) :
    Ends complete count (Pure.pure a : Exec α) good :=
  fun _ le => ⟨Nat.le_refl _, holds _ le⟩

theorem throw {error : RunError} (reported : error.Reported complete) :
    Ends complete count (MonadExcept.throw error : Exec α) good := fun _ _ => reported

/-- An action and then another one, which may rely on the number of buffers then. -/
theorem bind {middle : Nat → β → Prop} (first : Ends complete count action middle)
    (later : ∀ b more, count ≤ more → middle more b → Ends complete more (next b) good) :
    Ends complete count (action >>= next) good := by
  intro machine le
  have begun := first machine le
  simp only [Bind.bind, EStateM.bind]
  cases ran : action machine with
  | ok b after =>
      rw [ran] at begun
      have done := later b _ (Nat.le_trans le begun.1) begun.2 after (Nat.le_refl _)
      revert done
      dsimp only
      cases next b after with
      | ok a last => exact fun done => ⟨Nat.le_trans begun.1 done.1, done.2⟩
      | error error last => exact id
  | error error after =>
      rw [ran] at begun
      exact begun

theorem of_le {more : Nat} {action : Exec α} (ends : Ends complete count action good)
    (le : count ≤ more) : Ends complete more action good :=
  fun machine enough => ends machine (Nat.le_trans le enough)

theorem reported {action : Exec α} (ends : Ends complete count action good) {machine last : Machine}
    (le : count ≤ machine.heap.size) {error : RunError}
    (failed : action machine = .error error last) : error.Reported complete := by
  have done := ends machine le
  rw [failed] at done
  exact done

theorem mono {better : Nat → α → Prop} {action : Exec α} (ends : Ends complete count action good)
    (implied : ∀ size a, good size a → better size a) : Ends complete count action better := by
  intro machine le
  have done := ends machine le
  revert done
  cases action machine with
  | ok a last => exact fun done => ⟨done.1, implied _ _ done.2⟩
  | error error last => exact id

/-- An action and then another one, that does not depend on the number of buffers. -/
theorem andThen {middle : β → Prop} (first : Ends complete count action fun _ => middle)
    (later : ∀ b, middle b → Ends complete count (next b) good) :
    Ends complete count (action >>= next) good :=
  first.bind fun b _ le holds => (later b holds).of_le le

theorem require {found : Option α} (has : complete → found ≠ none) :
    Ends complete count (require found) fun _ a => found = some a := by
  cases found with
  | none => exact throw ⟨nofun, fun holds => absurd rfl (has holds)⟩
  | some a => exact pure fun _ _ => rfl

theorem get : Ends complete count (get : Exec Machine) fun size machine =>
    size = machine.heap.size := fun _ _ => ⟨Nat.le_refl _, rfl⟩

theorem modify {change : Machine → Machine}
    (grows : ∀ machine, machine.heap.size ≤ (change machine).heap.size) :
    Ends complete count (modify change : Exec PUnit) fun _ _ => True :=
  fun machine _ => ⟨grows machine, trivial⟩

theorem mapM {γ : Type} {step : γ → Exec α} {items : List γ} {each : α → Prop}
    (all : ∀ item ∈ items, Ends complete count (step item) fun _ => each) :
    Ends complete count (items.mapM step) fun _ results => ∀ a ∈ results, each a := by
  induction items with
  | nil => exact pure (by simp)
  | cons item rest ih =>
      rw [List.mapM_cons]
      refine (all item List.mem_cons_self).andThen fun first holds => ?_
      refine (ih fun other listed => all other (List.mem_cons_of_mem item listed)).andThen ?_
      exact fun others good => pure fun _ _ => List.forall_mem_cons.mpr ⟨holds, good⟩

end Ends

/-! ## Operands and attributes -/

theorem lookup_ends (frame : Frame) (value : Value) :
    Ends complete count (lookup frame value) fun _ datum => frame.find? value = some datum := by
  unfold lookup
  cases frame.find? value with
  | none => exact .throw ⟨nofun, fun _ => nofun⟩
  | some datum => exact .pure fun _ _ => rfl

theorem emit_ends (event : Event) : Ends complete count (emit event) fun _ _ => True :=
  .modify fun _ => Nat.le_refl _

namespace Site

variable (site : Site)

theorem operand_ends {position : Nat} (enough : complete → position < site.op.operands.length) :
    Ends complete count (site.operand position) fun _ value => value ∈ site.op.operands := by
  unfold operand
  refine (Ends.require fun holds none => ?_).mono fun _ value found => List.mem_of_getElem? found
  exact absurd (List.getElem?_eq_none_iff.mp none) (Nat.not_le.mpr (enough holds))

theorem operandDType_ends {position : Nat} (enough : complete → position < site.op.operands.length)
    (typed : complete → ∀ value ∈ site.op.operands, (site.module.valueType? value).isSome = true) :
    Ends complete count (site.operandDType position) fun _ _ => True := by
  refine (site.operand_ends enough).andThen fun value listed => ?_
  refine (Ends.require fun holds => ?_).andThen fun _ _ => .pure fun _ _ => trivial
  exact Option.isSome_iff_ne_none.mp (typed holds value listed)

theorem scalar_ends (frame : Frame) (value : Value) :
    Ends complete count (site.scalar frame value) fun _ _ => True := by
  refine (lookup_ends frame value).andThen fun datum _ => ?_
  cases datum with
  | scalar scalar => exact .pure fun _ _ => trivial
  | buffer handle => exact .throw ⟨nofun, fun _ => nofun⟩

theorem int_ends (frame : Frame) (value : Value) :
    Ends complete count (site.int frame value) fun _ _ => True := by
  refine (site.scalar_ends frame value).andThen fun scalar _ => ?_
  cases scalar with
  | int number => exact .pure fun _ _ => trivial
  | float x => exact .throw ⟨nofun, fun _ => nofun⟩

theorem float_ends (frame : Frame) (value : Value) :
    Ends complete count (site.float frame value) fun _ _ => True := by
  refine (site.scalar_ends frame value).andThen fun scalar _ => ?_
  cases scalar with
  | int number => exact .throw ⟨nofun, fun _ => nofun⟩
  | float x => exact .pure fun _ _ => trivial

theorem buffer_ends {frame : Frame} (held : frame.Held count) (value : Value) :
    Ends complete count (site.buffer frame value) fun _ handle => handle < count := by
  refine (lookup_ends frame value).andThen fun datum found => ?_
  cases datum with
  | scalar scalar => exact .throw ⟨nofun, fun _ => nofun⟩
  | buffer handle => exact .pure fun _ _ => held.find found

theorem attr_ends (name : String) (form : Attribute → Option α) :
    Ends complete count (site.attr name form) fun _ _ => True := by
  unfold attr
  cases (site.op.attr? name).bind form with
  | none => exact .throw ⟨nofun, fun _ => nofun⟩
  | some a => exact .pure fun _ _ => trivial

theorem defined_ends (found : Option α) :
    Ends complete count (site.defined found) fun _ _ => True := by
  cases found with
  | none => exact .throw ⟨nofun, fun _ => nofun⟩
  | some a => exact .pure fun _ _ => trivial

theorem checked_ends (overflows : Bool) :
    Ends complete count (site.checked overflows) fun _ _ => True := by
  cases overflows with
  | false => exact .pure fun _ _ => trivial
  | true => exact .throw ⟨nofun, fun _ => nofun⟩

theorem evalMap_ends (map : AffineMap) (words : List Int64) :
    Ends complete count (site.evalMap map words) fun _ _ => True :=
  (site.checked_ends _).andThen fun _ _ => site.defined_ends _

theorem words_ends (frame : Frame) (values : List Value) :
    Ends complete count (site.words frame values) fun _ _ => True := by
  have each : ∀ value ∈ values, Ends complete count (do
      return Int64.ofInt (← site.int frame value)) fun _ _ => True := fun value _ =>
    (site.int_ends frame value).andThen fun _ _ => .pure fun _ _ => trivial
  exact (Ends.mapM each).mono fun _ _ _ => trivial

theorem access_ends (frame : Frame) (indices : List Value) :
    Ends complete count (site.access frame indices) fun _ _ => True :=
  (site.attr_ends _ _).andThen fun _ _ => (site.words_ends frame indices).andThen fun _ _ =>
    site.evalMap_ends _ _

/-! ## Actions of operations -/

theorem constant_ends : Ends complete count site.constant fun _ _ => True := by
  unfold constant
  dsimp only
  split
  · exact .pure fun _ _ => trivial
  · exact .pure fun _ _ => trivial
  · exact .throw ⟨nofun, fun _ => nofun⟩

theorem unary_ends (dtype : DType) (scalar : Scalar) :
    Ends complete count (site.unary dtype scalar) fun _ _ => True := by
  unfold unary
  split
  · exact (emit_ends _).andThen fun _ _ => .pure fun _ _ => trivial
  · exact .throw ⟨nofun, fun _ => nofun⟩

theorem binary_ends (dtype : DType) (lhs rhs : Scalar) :
    Ends complete count (site.binary dtype lhs rhs) fun _ _ => True := by
  unfold binary
  split
  · exact .pure fun _ _ => trivial
  all_goals exact .throw ⟨nofun, fun _ => nofun⟩

theorem arithmetic_ends (frame : Frame) :
    Ends complete count (site.arithmetic frame) fun _ _ => True := by
  unfold arithmetic
  dsimp only
  split
  · exact (site.scalar_ends frame _).andThen fun _ _ => site.unary_ends _ _
  · exact (site.scalar_ends frame _).andThen fun _ _ =>
      (site.scalar_ends frame _).andThen fun _ _ => site.binary_ends _ _ _
  · exact .throw ⟨nofun, fun _ => nofun⟩

theorem alloc_ends (has : complete → site.op.results ≠ []) :
    Ends complete count site.alloc fun size handle => handle < size := by
  refine (Ends.require fun holds none => ?_).andThen fun type _ =>
    (site.checked_ends _).andThen fun _ _ machine _ => ?_
  · exact has holds (List.head?_eq_none_iff.mp none)
  · have grows : machine.heap.size < (machine.heap.push
        (.zeros (type.shape?.getD []) type.dtype)).size := by simp
    exact ⟨Nat.le_of_lt grows, grows⟩

theorem shapeOf_ends {handle : Nat} (small : handle < count) :
    Ends complete count (shapeOf handle) fun _ _ => True := by
  refine Ends.get.bind fun machine size le same => ?_
  refine (Ends.require fun _ none => ?_).mono fun _ _ _ => trivial
  simp only [Option.map_eq_none_iff, Array.getElem?_eq_none_iff] at none
  omega

theorem putElement_ends (handle offset : Nat) (scalar : Scalar) :
    Ends complete count (putElement handle offset scalar) fun _ _ => True :=
  .modify fun machine => by simp

section Operands

variable {frame : Frame}
  (meets : complete → site.op.Complete site.module)
include meets

theorem has_operand {position : Nat} (small : position < site.op.kind.arity) :
    complete → position < site.op.operands.length :=
  fun holds => Nat.lt_of_lt_of_le small (meets holds).operands

theorem compareInts_ends (arity : site.op.kind.arity = 2) :
    Ends complete count (site.compareInts frame) fun _ _ => True := by
  have operand : ∀ position < 2, complete → position < site.op.operands.length :=
    fun position small => site.has_operand meets (arity ▸ small)
  refine (site.attr_ends _ _).andThen fun _ _ => ?_
  refine (site.operandDType_ends (operand 0 (by decide)) fun holds => (meets holds).typed).andThen
    fun _ _ => ?_
  refine (site.operand_ends (operand 0 (by decide))).andThen fun _ _ => ?_
  refine (site.int_ends frame _).andThen fun _ _ => ?_
  refine (site.operand_ends (operand 1 (by decide))).andThen fun _ _ => ?_
  exact (site.int_ends frame _).andThen fun _ _ => .pure fun _ _ => trivial

theorem compareFloats_ends (arity : site.op.kind.arity = 2) :
    Ends complete count (site.compareFloats frame) fun _ _ => True := by
  refine (site.attr_ends _ _).andThen fun _ _ => ?_
  refine (site.operand_ends (site.has_operand meets (by omega))).andThen fun _ _ => ?_
  refine (site.float_ends frame _).andThen fun _ _ => ?_
  refine (site.operand_ends (site.has_operand meets (by omega))).andThen fun _ _ => ?_
  exact (site.float_ends frame _).andThen fun _ _ => .pure fun _ _ => trivial

theorem cast_ends (arity : site.op.kind.arity = 1) :
    Ends complete count (site.cast frame) fun _ _ => True := by
  have operand := site.has_operand meets (show 0 < site.op.kind.arity by omega)
  refine (site.operand_ends operand).andThen fun _ _ => ?_
  refine (site.scalar_ends frame _).andThen fun _ _ => ?_
  exact (site.operandDType_ends operand fun holds => (meets holds).typed).andThen
    fun _ _ => .pure fun _ _ => trivial

theorem select_ends (arity : site.op.kind.arity = 3) :
    Ends complete count (site.select frame) fun _ _ => True := by
  refine (site.operand_ends (site.has_operand meets (by omega))).andThen fun _ _ => ?_
  refine (site.int_ends frame _).andThen fun _ _ => ?_
  refine (site.operand_ends (site.has_operand meets ?_)).andThen fun _ _ => site.scalar_ends frame _
  split <;> omega

theorem getBit_ends (arity : site.op.kind.arity = 2) :
    Ends complete count (site.getBit frame) fun _ _ => True := by
  have operand : ∀ position < 2, complete → position < site.op.operands.length :=
    fun position small => site.has_operand meets (arity ▸ small)
  refine (site.operand_ends (operand 0 (by decide))).andThen fun _ _ => ?_
  refine (site.int_ends frame _).andThen fun _ _ => ?_
  refine (site.operand_ends (operand 1 (by decide))).andThen fun _ _ => ?_
  refine (site.int_ends frame _).andThen fun _ _ => ?_
  exact (site.operandDType_ends (operand 0 (by decide)) fun holds => (meets holds).typed).andThen
    fun _ _ => .pure fun _ _ => trivial

theorem load_ends (held : frame.Held count) (arity : site.op.kind.arity = 1) :
    Ends complete count (site.load frame) fun _ _ => True := by
  refine (site.operand_ends (site.has_operand meets (by omega))).andThen fun _ _ => ?_
  refine (site.buffer_ends held _).andThen fun handle small => ?_
  refine (site.access_ends frame _).andThen fun indices _ => ?_
  refine Ends.get.bind fun machine size le same => ?_
  refine (Ends.require fun _ none => ?_).andThen fun buffer _ => ?_
  · rw [Array.getElem?_eq_none_iff] at none
    omega
  · cases buffer.get? indices with
    | none => exact .throw ⟨nofun, fun _ => nofun⟩
    | some scalar => exact .pure fun _ _ => trivial

theorem store_ends (held : frame.Held count) (arity : site.op.kind.arity = 2) :
    Ends complete count (site.store frame) fun _ _ => True := by
  refine (site.operand_ends (site.has_operand meets (by omega))).andThen fun _ _ => ?_
  refine (site.scalar_ends frame _).andThen fun scalar _ => ?_
  refine (site.operand_ends (site.has_operand meets (by omega))).andThen fun _ _ => ?_
  refine (site.buffer_ends held _).andThen fun handle small => ?_
  refine (site.access_ends frame _).andThen fun indices _ => ?_
  refine (shapeOf_ends small).andThen fun shape _ => ?_
  cases Buffer.offset? shape indices with
  | none => exact .throw ⟨nofun, fun _ => nofun⟩
  | some offset => exact putElement_ends handle offset scalar

end Operands

theorem loopRange_ends (frame : Frame) :
    Ends complete count (site.loopRange frame) fun _ _ => True := by
  refine (site.attr_ends _ _).andThen fun lower _ => (site.attr_ends _ _).andThen fun upper _ => ?_
  refine (site.attr_ends _ _).andThen fun step _ => ?_
  refine (site.words_ends frame _).andThen fun first _ => ?_
  refine (site.words_ends frame _).andThen fun second _ => ?_
  exact (site.evalMap_ends _ _).andThen fun _ _ => (site.evalMap_ends _ _).andThen fun _ _ =>
    .pure fun _ _ => trivial

theorem branch_ends (frame : Frame) :
    Ends complete count (site.branch frame) fun _ region =>
      ∀ block ∈ region, block ∈ site.op.regions := by
  refine (site.attr_ends _ _).andThen fun _ _ => (site.words_ends frame _).andThen fun _ _ => ?_
  refine (site.checked_ends _).andThen fun _ _ => ?_
  refine (site.defined_ends _).andThen fun _ _ => .pure fun _ _ block listed => ?_
  exact List.mem_of_getElem? listed

/-- The function that a call calls, with its name. -/
def target : Exec (String × OpId) :=
  match site.op.callee? with
  | none => throw (site.missing "callee")
  | some callee =>
    match site.module.function? callee with
    | none => throw (.unknownFunction callee)
    | some func => return (callee, func)

theorem target_ends :
    Ends complete count site.target fun _ target =>
      site.op.callee? = some target.1 ∧ site.module.function? target.1 = some target.2 := by
  unfold target
  cases named : site.op.callee? with
  | none => exact .throw ⟨nofun, fun _ => nofun⟩
  | some callee =>
      dsimp only
      cases known : site.module.function? callee with
      | none => exact .throw ⟨nofun, fun _ => nofun⟩
      | some func => exact .pure fun _ _ => ⟨rfl, known⟩

theorem target_explains {frame : Frame} : FailsOnly (site.Explains frame) site.target := by
  unfold target
  split
  · exact .throw trivial
  split
  · exact .throw trivial
  · exact .pure _

end Site

/-! ## Operations -/

/-- A block ends, whatever data of the heap it is entered with. -/
def BlockEnds (complete : Prop) (run : RunBlock) (block : BlockId) : Prop :=
  ∀ (count : Nat) (args : List Datum) (frame : Frame), (∀ datum ∈ args, datum.Held count) →
    frame.Held count → Ends complete count (run block args frame) fun size outcome =>
      ∀ values ∈ outcome, ∀ datum ∈ values, datum.Held size

section Operations

variable {module : Module} {run : RunBlock} {id : OpId} {op : Operation} {frame : Frame}

theorem runOp_target (found : module.op? id = some op) (kind : op.kind = .call) :
    runOp module run id frame = (site found).target >>= fun target =>
      op.operands.mapM (lookup frame) >>= fun args =>
        runFunction module run target.2 target.1 args >>= fun values =>
          pure (.next (defineResults frame id op.results.length values)) := by
  rw [runOp, found, require_some, pure_bind]
  simp only [kind, Site.target, Operation.callee?]
  cases op.attr? "callee" with
  | none => rfl
  | some attr =>
      simp only [Option.map_some, pure_bind]
      cases module.function? (attr.asText?.getD "") <;> rfl

theorem defining_ends {action : Exec Scalar} (held : frame.Held count)
    (ends : Ends complete count action fun _ _ => True) :
    Ends complete count (defining id frame action) Step.Held :=
  ends.bind fun scalar _ le _ => .pure fun size more =>
    have datum : (Datum.scalar scalar).Held size := trivial
    (held.mono (Nat.le_trans le more)).define datum

theorem silent_ends {action : Exec β} (held : frame.Held count)
    (ends : Ends complete count action fun _ _ => True) :
    Ends complete count (action >>= fun _ => pure (.next frame)) Step.Held :=
  ends.bind fun _ _ le _ => .pure fun _ more => Frame.Held.mono held (Nat.le_trans le more)

/-- A loop ends if its body does. -/
theorem iterate_ends {body : BlockId} (ends : BlockEnds complete run body) (step : Int) :
    ∀ (iterations : Nat) (current : Int) {count : Nat}, frame.Held count →
      Ends complete count (iterate (fun current => do
        let _ ← run body [.scalar (.int current)] frame) step iterations current) fun _ _ => True
  | 0, _, _, _ => .pure fun _ _ => trivial
  | iterations + 1, current, count, held => by
      rw [iterate, bind_assoc]
      refine (ends count _ frame (by simp [Datum.Held]) held).bind fun _ more le _ => ?_
      rw [pure_bind]
      exact iterate_ends ends step iterations (current + step) (held.mono le)

/-- A function ends if its body does. -/
theorem runFunction_ends (forest : module.Forest) {func : OpId} {name : String} {args : List Datum}
    (body : ∀ block, module.region? func 0 = some block → BlockEnds complete run block)
    (given : ∀ datum ∈ args, datum.Held count) :
    Ends complete count (runFunction module run func name args) fun size values =>
      ∀ datum ∈ values, datum.Held size := by
  unfold runFunction
  cases region : module.region? func 0 with
  | none => exact .throw ⟨nofun, fun _ => nofun⟩
  | some entry =>
      obtain ⟨block, listed⟩ := forest.exists_of_region? region
      simp only [listed, require_some, pure_bind]
      split
      · exact .throw ⟨nofun, fun _ => nofun⟩
      · refine (emit_ends _).andThen fun _ _ => ?_
        refine (body entry region count args [] given .nil).bind fun outcome more le held => ?_
        refine .pure fun size more' => ?_
        cases outcome with
        | none => exact nofun
        | some values => exact fun datum listed => (held values rfl datum listed).mono more'

section Found

variable (found : module.op? id = some op) (held : frame.Held count)
include found held

/-- A loop ends if its region does. -/
theorem loop_ends (kind : op.kind = .affineFor) (meets : complete → op.Complete module)
    (blocks : ∀ block, module.Opens op block → BlockEnds complete run block) :
    Ends complete count (runOp module run id frame) Step.Held := by
  rw [runOp_loop found kind]
  refine silent_ends held ?_
  refine ((site found).loopRange_ends frame).andThen fun range _ => ?_
  refine (Ends.require fun holds none => ?_).andThen fun body first => ?_
  · exact (meets holds).region kind (List.head?_eq_none_iff.mp none)
  · have opened : module.Opens op body :=
      .inl ⟨by rw [kind]; decide, List.mem_of_mem_head? first⟩
    exact (iterate_ends (blocks body opened) _ _ _ held).andThen fun _ _ =>
      (site found).checked_ends _

/-- A conditional ends if its regions do. -/
theorem conditional_ends (kind : op.kind = .affineIf)
    (blocks : ∀ block, module.Opens op block → BlockEnds complete run block) :
    Ends complete count (runOp module run id frame) Step.Held := by
  rw [runOp_conditional found kind, runConditional, bind_assoc]
  refine ((site found).branch_ends frame).andThen fun region inside => ?_
  cases region with
  | none =>
      rw [pure_bind]
      exact .pure fun _ le => held.mono le
  | some body =>
      have opened : module.Opens op body := .inl ⟨by rw [kind]; decide, inside body rfl⟩
      refine (blocks body opened count [] frame (by simp) held).bind fun outcome more le good => ?_
      cases outcome with
      | none => exact .pure fun _ le' => held.mono (Nat.le_trans le le')
      | some values =>
          exact .pure fun _ le' datum listed => (good values rfl datum listed).mono le'

/-- A call ends if the function that it calls does. -/
theorem call_ends (forest : module.Forest) (kind : op.kind = .call)
    (blocks : ∀ block, module.Opens op block → BlockEnds complete run block) :
    Ends complete count (runOp module run id frame) Step.Held := by
  rw [runOp_target found kind]
  refine (site found).target_ends.andThen fun target known => ?_
  refine (Ends.mapM fun operand _ => (lookup_ends frame operand).mono
    fun _ datum given => held.find given).andThen fun args given => ?_
  have bodies : ∀ block, module.region? target.2 0 = some block → BlockEnds complete run block :=
    fun block region => blocks block (.inr ⟨target.1, target.2, kind, known.1, known.2, region⟩)
  refine (runFunction_ends forest bodies given).bind fun values more le good => ?_
  rw [Frame.defineResults_eq_binding]
  refine .pure fun size le' => (held.mono (Nat.le_trans le le')).binding id fun datum listed => ?_
  exact (good datum (List.mem_of_mem_take listed)).mono le'

/-- **One operation.** -/
theorem runOp_ends (forest : module.Forest) (meets : complete → op.Complete module)
    (blocks : ∀ block, module.Opens op block → BlockEnds complete run block) :
    Ends complete count (runOp module run id frame) Step.Held := by
  have arity : ∀ {kind : OpKind}, op.kind = kind → op.kind.arity = kind.arity :=
    fun same => congrArg OpKind.arity same
  have defines : ∀ {action : Exec Scalar}, runOp module run id frame = defining id frame action →
      (Ends complete count action fun _ _ => True) →
      Ends complete count (runOp module run id frame) Step.Held :=
    fun runs ends => runs ▸ defining_ends held ends
  cases kind : op.kind with
  | constant => exact defines (runOp_constant found kind) (site found).constant_ends
  | negF | exp | log | log2 | log10 | sqrt | sin | cos | tanh | floor
  | addI | subI | mulI | divSI | divUI | floorDivSI | remSI | remUI | minSI | maxSI | minUI | maxUI
  | shlI | shrSI | shrUI | andI | orI | xorI | addF | subF | mulF | divF | remF | minF | maxF
  | addFixed | subFixed | mulFixed | divFixed | minFixed | maxFixed =>
      have arithmetic : op.kind.isArithmetic = true := by rw [kind]; rfl
      exact defines (runOp_arithmetic found arithmetic) ((site found).arithmetic_ends frame)
  | cmpI =>
      exact defines (runOp_compareInts found (.inl kind))
        ((site found).compareInts_ends meets (arity kind))
  | cmpFixed =>
      exact defines (runOp_compareInts found (.inr kind))
        ((site found).compareInts_ends meets (arity kind))
  | cmpF =>
      exact defines (runOp_compareFloats found kind)
        ((site found).compareFloats_ends meets (arity kind))
  | indexCast =>
      exact defines (runOp_cast found (.inl kind)) ((site found).cast_ends meets (arity kind))
  | conversionCast =>
      exact defines (runOp_cast found (.inr kind)) ((site found).cast_ends meets (arity kind))
  | select => exact defines (runOp_select found kind) ((site found).select_ends meets (arity kind))
  | getBit => exact defines (runOp_getBit found kind) ((site found).getBit_ends meets (arity kind))
  | load => exact defines (runOp_load found kind) ((site found).load_ends meets held (arity kind))
  | store =>
      rw [runOp_store found kind]
      exact silent_ends held ((site found).store_ends meets held (arity kind))
  | alloc =>
      rw [runOp_alloc found kind]
      refine ((site found).alloc_ends fun holds => (meets holds).result kind).bind
        fun handle more le small => .pure fun size le' => ?_
      have datum : (Datum.buffer handle).Held size := Nat.lt_of_lt_of_le small le'
      exact (held.mono (Nat.le_trans le le')).define datum
  | yield =>
      rw [runOp_idle found (.inl kind)]
      exact .pure fun _ le => held.mono le
  | func =>
      rw [runOp_idle found (.inr kind)]
      exact .pure fun _ le => held.mono le
  | ret =>
      rw [runOp_ret found kind]
      refine (Ends.mapM fun operand _ => (lookup_ends frame operand).mono
        fun _ datum given => held.find given).andThen fun values given => ?_
      exact .pure fun _ le datum listed => (given datum listed).mono le
  | affineFor => exact loop_ends found held kind meets blocks
  | affineIf => exact conditional_ends found held kind blocks
  | call => exact call_ends found held forest kind blocks

end Found

/-- A list of operations ends if each of them does. -/
theorem runOps_ends {step : OpId → Frame → Exec Step} {ops : List OpId}
    (each : ∀ id ∈ ops, ∀ (count : Nat) (frame : Frame), frame.Held count →
      Ends complete count (step id frame) Step.Held) {count : Nat} {frame : Frame}
    (held : frame.Held count) :
    Ends complete count (runOps step ops frame) fun size outcome =>
      ∀ values ∈ outcome, ∀ datum ∈ values, datum.Held size := by
  induction ops generalizing count frame with
  | nil => exact .pure fun _ _ => nofun
  | cons id rest ih =>
      rw [runOps]
      refine (each id List.mem_cons_self count frame held).bind fun step more le good => ?_
      cases step with
      | next later =>
          exact ih (fun other listed => each other (List.mem_cons_of_mem id listed)) good
      | returned values =>
          refine .pure fun size more found same datum listed => ?_
          cases same
          exact (good datum listed).mono more

end Operations

end Machine

end AffineKernel
