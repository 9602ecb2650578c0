import AffineKernel.Proofs.Semantics.Operations

/-!
# Calls on a used machine

A machine keeps its heap from one call to the next, and the handles of buffers
are places in this heap. So the same call goes through different handles on a
machine that was used before than on a fresh one. The difference is not seen:
put the heap of the past in front of a heap, and move all handles by its size.
An action *relocates* if it then does the same, with the same outcome
(`Machine.Relocates`). All operations relocate, hence blocks by induction on
their depth, and calls (`Machine.call_behind`).

A call gives the buffers of its caller back unchanged if the function failed. It
does not if the function ran to its end and returned a buffer: the call is then
refused, but what was stored is stored (`lender_keeps_store`).
-/

set_option autoImplicit false

namespace AffineKernel

/-! ## Moving handles -/

/-- A datum whose handles are moved. -/
def Datum.moved (base : Nat) : Datum → Datum
  | .scalar value => .scalar value
  | .buffer handle => .buffer (base + handle)

/-- A frame in which all handles are moved. -/
def Frame.moved (base : Nat) (frame : Frame) : Frame :=
  frame.map fun scope => ⟨scope.entries.map fun entry => (entry.1, entry.2.moved base)⟩

/-- A step after which all handles are moved. -/
def Step.moved (base : Nat) : Step → Step
  | .next frame => .next (frame.moved base)
  | .returned values => .returned (values.map (Datum.moved base))

namespace Frame

variable (base : Nat) (frame : Frame)

@[simp]
theorem find?_moved (value : Value) :
    (frame.moved base).find? value = (frame.find? value).map (Datum.moved base) := by
  have scope (entries : List (Value × Datum)) :
      Table.find? ⟨entries.map fun entry => (entry.1, entry.2.moved base)⟩ value =
        (Table.find? ⟨entries⟩ value).map (Datum.moved base) := by
    simp only [Table.find?, List.find?_map, Option.map_map]
    rfl
  induction frame with
  | nil => rfl
  | cons first outer ih =>
      have found := scope first.entries
      unfold find? moved at ih ⊢
      rw [List.map_cons, List.findSome?_cons, List.findSome?_cons, found, ih]
      cases Table.find? first value <;> rfl

theorem moved_define (value : Value) (datum : Datum) :
    (frame.define value datum).moved base = (frame.moved base).define value (datum.moved base) := by
  cases frame <;> rfl

theorem moved_enter (block : BlockId) (args : List Datum) :
    (frame.enter block args).moved base =
      (frame.moved base).enter block (args.map (Datum.moved base)) := by
  simp only [enter, moved, List.map_cons, List.length_map, List.zip_map_right]
  rfl

end Frame

namespace Machine

theorem moved_defineResults (base : Nat) (frame : Frame) (id : OpId) (count : Nat)
    (values : List Datum) :
    (defineResults frame id count values).moved base =
      defineResults (frame.moved base) id count (values.map (Datum.moved base)) := by
  unfold defineResults
  rw [List.zip_map_right, List.foldl_map]
  generalize (List.range count).zip values = entries
  induction entries generalizing frame with
  | nil => rfl
  | cons entry rest ih => simp only [List.foldl_cons, ih, Frame.moved_define, Prod.map]; rfl

/-! ## Actions that relocate -/

/-- A machine with the heap and the events of the past in front of its own. -/
def behind (past machine : Machine) : Machine :=
  ⟨past.heap ++ machine.heap, past.log ++ machine.log⟩

/-- Behind the past, `far` does what `near` does, with results moved by `move`. -/
def Relocates {α β : Type} (past : Machine) (move : α → β) (near : Exec α) (far : Exec β) : Prop :=
  ∀ machine, far (past.behind machine) =
    match near machine with
    | .ok a after => .ok (move a) (past.behind after)
    | .error error after => .error error (past.behind after)

/-- Behind the past, `far` does what `near` does, with the same results. -/
abbrev Steady {α : Type} (past : Machine) (near far : Exec α) : Prop :=
  Relocates past (fun a => a) near far

variable {α β γ δ : Type} {past : Machine} {move : α → β}

namespace Relocates

theorem pure (a : α) : Relocates past move (pure a : Exec α) (Pure.pure (move a)) := fun _ => rfl

theorem throw (error : RunError) :
    Relocates past move (throw error : Exec α) (MonadExcept.throw error) := fun _ => rfl

theorem throw_bind (error : RunError) {next : γ → Exec α} {further : δ → Exec β} :
    Relocates past move ((MonadExcept.throw error : Exec γ) >>= next)
      ((MonadExcept.throw error : Exec δ) >>= further) := fun _ => rfl

theorem bind {near : Exec γ} {far : Exec δ} {carry : γ → δ} {next : γ → Exec α}
    {further : δ → Exec β} (first : Relocates past carry near far)
    (second : ∀ c, Relocates past move (next c) (further (carry c))) :
    Relocates past move (near >>= next) (far >>= further) := by
  intro machine
  simp only [Bind.bind, EStateM.bind, first machine]
  cases near machine with
  | ok c after => exact second c after
  | error error after => rfl

theorem require (found : Option α) : Steady past (require found) (Machine.require found) := by
  cases found with
  | none => exact throw _
  | some a => exact pure a

/-- A step with the same result, and what follows. -/
theorem andThen {near far : Exec γ} {next : γ → Exec α} {further : γ → Exec β}
    (first : Steady past near far) (second : ∀ c, Relocates past move (next c) (further c)) :
    Relocates past move (near >>= next) (far >>= further) := first.bind second

theorem get : Relocates past past.behind (get : Exec Machine) MonadState.get := fun _ => rfl

theorem set (machine : Machine) :
    Steady past (set machine : Exec PUnit) (MonadStateOf.set (past.behind machine)) := fun _ => rfl

theorem update {change alter : Machine → Machine}
    (same : ∀ machine, alter (past.behind machine) = past.behind (change machine)) :
    Steady past (modify change : Exec PUnit) (modify alter) := by
  intro machine
  exact congrArg (EStateM.Result.ok PUnit.unit) (same machine)

theorem emit (event : Event) : Steady past (Machine.emit event) (Machine.emit event) :=
  update fun machine => by simp only [behind, Array.append_push]

theorem mapM {near : γ → Exec α} {far : γ → Exec β}
    (each : ∀ item, Relocates past move (near item) (far item)) (items : List γ) :
    Relocates past (List.map move) (items.mapM near) (items.mapM far) := by
  induction items with
  | nil => exact pure []
  | cons item rest ih =>
      rw [List.mapM_cons, List.mapM_cons]
      exact (each item).bind fun first => ih.bind fun others => pure (first :: others)

end Relocates

/-- What is in the heap behind the past. -/
theorem behind_getElem? (past machine : Machine) (handle : Nat) :
    (past.behind machine).heap[past.heap.size + handle]? = machine.heap[handle]? := by
  rw [behind, Array.getElem?_append_right (Nat.le_add_right _ _), Nat.add_sub_cancel_left]

/-! ## Operations -/

variable {frame : Frame}

theorem lookup_relocates (value : Value) :
    Relocates past (Datum.moved past.heap.size) (lookup frame value)
      (lookup (frame.moved past.heap.size) value) := by
  unfold lookup
  rw [Frame.find?_moved]
  cases frame.find? value with
  | none => exact .throw _
  | some datum => exact .pure datum

namespace Site

variable (site : Site)

theorem operand_relocates (position : Nat) :
    Steady past (site.operand position) (site.operand position) :=
  .require _

theorem operandDType_relocates (position : Nat) :
    Steady past (site.operandDType position) (site.operandDType position) :=
  (site.operand_relocates position).bind fun _ =>
    (Relocates.require _).bind fun _ => .pure _

theorem attr_relocates (name : String) (form : Attribute → Option α) :
    Steady past (site.attr name form) (site.attr name form) := by
  unfold attr
  cases (site.op.attr? name).bind form with
  | none => exact .throw _
  | some a => exact .pure a

theorem defined_relocates (found : Option α) :
    Steady past (site.defined found) (site.defined found) := by
  cases found with
  | none => exact .throw _
  | some a => exact .pure a

theorem checked_relocates (overflows : Bool) :
    Steady past (site.checked overflows) (site.checked overflows) := by
  cases overflows with
  | false => exact .pure ()
  | true => exact .throw _

theorem evalMap_relocates (map : AffineMap) (words : List Int64) :
    Steady past (site.evalMap map words) (site.evalMap map words) :=
  (site.checked_relocates _).bind fun _ => site.defined_relocates _

theorem scalar_relocates (value : Value) : Steady past (site.scalar frame value)
    (site.scalar (frame.moved past.heap.size) value) := by
  refine (lookup_relocates value).bind fun datum => ?_
  cases datum with
  | scalar scalar => exact .pure scalar
  | buffer handle => exact .throw _

theorem int_relocates (value : Value) : Steady past (site.int frame value)
    (site.int (frame.moved past.heap.size) value) := by
  refine (site.scalar_relocates value).bind fun scalar => ?_
  cases scalar with
  | int number => exact .pure number
  | float x => exact .throw _

theorem float_relocates (value : Value) : Steady past (site.float frame value)
    (site.float (frame.moved past.heap.size) value) := by
  refine (site.scalar_relocates value).bind fun scalar => ?_
  cases scalar with
  | int number => exact .throw _
  | float x => exact .pure x

theorem buffer_relocates (value : Value) : Relocates past (past.heap.size + ·)
    (site.buffer frame value) (site.buffer (frame.moved past.heap.size) value) := by
  refine (lookup_relocates value).bind fun datum => ?_
  cases datum with
  | scalar scalar => exact .throw _
  | buffer handle => exact .pure handle

theorem words_relocates (values : List Value) : Steady past (site.words frame values)
    (site.words (frame.moved past.heap.size) values) := by
  have each (value : Value) :
      Steady past (do return Int64.ofInt (← site.int frame value))
        (do return Int64.ofInt (← site.int (frame.moved past.heap.size) value)) :=
    (site.int_relocates value).bind fun number => .pure (Int64.ofInt number)
  have all := Relocates.mapM each values
  rwa [List.map_id_fun'] at all

theorem access_relocates (values : List Value) : Steady past (site.access frame values)
    (site.access (frame.moved past.heap.size) values) :=
  (site.attr_relocates _ _).bind fun _ => (site.words_relocates values).bind fun _ =>
    site.evalMap_relocates _ _

/-! ### Scalar results -/

theorem constant_relocates : Steady past site.constant site.constant := by
  unfold constant
  dsimp only
  split
  · exact .pure _
  · exact .pure _
  · exact .throw _

theorem unary_relocates (dtype : DType) (scalar : Scalar) :
    Steady past (site.unary dtype scalar) (site.unary dtype scalar) := by
  unfold unary
  split
  · exact (Relocates.emit _).bind fun _ => .pure _
  · exact .throw _

theorem binary_relocates (dtype : DType) (lhs rhs : Scalar) :
    Steady past (site.binary dtype lhs rhs) (site.binary dtype lhs rhs) := by
  unfold binary
  split
  · exact .pure _
  all_goals exact .throw _

theorem compareInts_relocates : Steady past (site.compareInts frame)
    (site.compareInts (frame.moved past.heap.size)) :=
  (site.attr_relocates _ _).bind fun _ => (site.operandDType_relocates 0).bind fun _ =>
    (site.operand_relocates 0).bind fun first => (site.int_relocates first).bind fun _ =>
      (site.operand_relocates 1).bind fun second => (site.int_relocates second).bind fun _ =>
        .pure _

theorem compareFloats_relocates : Steady past (site.compareFloats frame)
    (site.compareFloats (frame.moved past.heap.size)) :=
  (site.attr_relocates _ _).bind fun _ => (site.operand_relocates 0).bind fun first =>
    (site.float_relocates first).bind fun _ => (site.operand_relocates 1).bind fun second =>
      (site.float_relocates second).bind fun _ => .pure _

theorem cast_relocates : Steady past (site.cast frame)
    (site.cast (frame.moved past.heap.size)) :=
  (site.operand_relocates 0).bind fun value => (site.scalar_relocates value).bind fun _ =>
    (site.operandDType_relocates 0).bind fun _ => .pure _

theorem select_relocates : Steady past (site.select frame)
    (site.select (frame.moved past.heap.size)) :=
  (site.operand_relocates 0).bind fun condition => (site.int_relocates condition).bind fun _ =>
    (site.operand_relocates _).bind fun chosen => site.scalar_relocates chosen

theorem getBit_relocates : Steady past (site.getBit frame)
    (site.getBit (frame.moved past.heap.size)) :=
  (site.operand_relocates 0).bind fun value => (site.int_relocates value).bind fun _ =>
    (site.operand_relocates 1).bind fun position => (site.int_relocates position).bind fun _ =>
      (site.operandDType_relocates 0).bind fun _ => .pure _

theorem arithmetic_relocates : Steady past (site.arithmetic frame)
    (site.arithmetic (frame.moved past.heap.size)) := by
  unfold arithmetic
  dsimp only
  split
  · exact (site.scalar_relocates _).bind fun _ => site.unary_relocates _ _
  · exact (site.scalar_relocates _).bind fun _ => (site.scalar_relocates _).bind fun _ =>
      site.binary_relocates _ _ _
  · exact .throw _

/-! ### Buffers -/

theorem alloc_relocates : Relocates past (past.heap.size + ·) site.alloc site.alloc := by
  refine (Relocates.require _).bind fun type => (site.checked_relocates _).bind fun _ => ?_
  refine Relocates.get.bind fun machine => ?_
  have grown (new : Buffer) : Machine.mk ((past.behind machine).heap.push new)
      (past.behind machine).log = past.behind ⟨machine.heap.push new, machine.log⟩ := by
    simp only [behind, Array.append_push]
  have handle : (past.behind machine).heap.size = past.heap.size + machine.heap.size :=
    Array.size_append
  simp only [grown, handle]
  exact (Relocates.set _).bind fun _ => .pure _

theorem load_relocates : Steady past (site.load frame)
    (site.load (frame.moved past.heap.size)) := by
  refine (site.operand_relocates 0).bind fun memref => (site.buffer_relocates memref).bind
    fun handle => (site.access_relocates _).bind fun indices => Relocates.get.bind fun machine => ?_
  rw [behind_getElem?]
  refine (Relocates.require _).bind fun buffer => ?_
  cases buffer.get? indices with
  | none => exact .throw _
  | some scalar => exact .pure scalar

theorem shapeOf_relocates (handle : Nat) :
    Steady past (shapeOf handle) (shapeOf (past.heap.size + handle)) := by
  refine Relocates.get.bind fun machine => ?_
  rw [behind_getElem?]
  exact .require _

theorem putElement_relocates (handle offset : Nat) (scalar : Scalar) :
    Steady past (putElement handle offset scalar)
      (putElement (past.heap.size + handle) offset scalar) := by
  refine .update fun machine => ?_
  have put : (past.heap ++ machine.heap).modify (past.heap.size + handle)
      (fun buffer => buffer.put offset scalar) =
        past.heap ++ machine.heap.modify handle fun buffer => buffer.put offset scalar := by
    refine Array.ext_getElem? fun place => ?_
    simp only [Array.getElem?_modify, Array.getElem?_append]
    by_cases old : place < past.heap.size
    · rw [if_neg (by omega), if_pos old, if_pos old]
    · have same : past.heap.size + handle = place ↔ handle = place - past.heap.size := by omega
      simp only [if_neg old, same]
  exact congrArg (Machine.mk · _) put

theorem store_relocates : Steady past (site.store frame)
    (site.store (frame.moved past.heap.size)) := by
  refine (site.operand_relocates 0).bind fun value => (site.scalar_relocates value).bind
    fun scalar => (site.operand_relocates 1).bind fun memref => (site.buffer_relocates memref).bind
    fun handle => (site.access_relocates _).bind fun indices => ?_
  refine (shapeOf_relocates handle).bind fun shape => ?_
  cases Buffer.offset? shape indices with
  | none => exact .throw _
  | some offset => exact putElement_relocates handle offset scalar

/-! ### Loops and conditionals -/

theorem loopRange_relocates : Steady past (site.loopRange frame)
    (site.loopRange (frame.moved past.heap.size)) :=
  (site.attr_relocates _ _).bind fun _ => (site.attr_relocates _ _).bind fun _ =>
    (site.attr_relocates _ _).bind fun _ => (site.words_relocates _).bind fun _ =>
      (site.words_relocates _).bind fun _ => (site.evalMap_relocates _ _).bind fun _ =>
        (site.evalMap_relocates _ _).bind fun _ => .pure _

theorem branch_relocates : Steady past (site.branch frame)
    (site.branch (frame.moved past.heap.size)) :=
  (site.attr_relocates _ _).bind fun _ => (site.words_relocates _).bind fun _ =>
    (site.checked_relocates _).bind fun _ => (site.defined_relocates _).bind fun _ => .pure _

end Site

/-! ## Runs -/

/-- Results of a block with moved handles. -/
def movedResults (base : Nat) : Option (List Datum) → Option (List Datum) :=
  Option.map (List.map (Datum.moved base))

/-- Executing a block relocates, whatever it is entered with. -/
def BlocksRelocate (past : Machine) (run : RunBlock) : Prop :=
  ∀ block args frame, Relocates past (movedResults past.heap.size) (run block args frame)
    (run block (args.map (Datum.moved past.heap.size)) (frame.moved past.heap.size))

section Blocks

variable {module : Module} {run : RunBlock} (blocks : BlocksRelocate past run)
include blocks

theorem iterate_relocates (body : BlockId) (step : Int) (count : Nat) (current : Int) :
    Steady past
      (iterate (fun number => do let _ ← run body [.scalar (.int number)] frame) step count current)
      (iterate (fun number => do
        let _ ← run body [.scalar (.int number)] (frame.moved past.heap.size)) step count
        current) := by
  induction count generalizing current with
  | zero => exact .pure _
  | succ count ih =>
      refine Relocates.andThen ?_ fun _ => ih (current + step)
      exact (blocks body [.scalar (.int current)] frame).bind fun _ => .pure _

theorem runLoop_relocates (site : Site) : Steady past (runLoop run site frame)
    (runLoop run site (frame.moved past.heap.size)) :=
  site.loopRange_relocates.bind fun _ => (Relocates.require _).bind fun body =>
    (iterate_relocates blocks body _ _ _).bind fun _ => site.checked_relocates _

theorem runConditional_relocates (site : Site) :
    Relocates past (movedResults past.heap.size) (runConditional run site frame)
      (runConditional run site (frame.moved past.heap.size)) := by
  refine site.branch_relocates.bind fun branch => ?_
  cases branch with
  | none => exact .pure _
  | some block => exact blocks block [] frame

theorem runFunction_relocates (func : OpId) (name : String) (args : List Datum) :
    Relocates past (List.map (Datum.moved past.heap.size)) (runFunction module run func name args)
      (runFunction module run func name (args.map (Datum.moved past.heap.size))) := by
  unfold runFunction
  cases module.region? func 0 with
  | none => exact .throw _
  | some body =>
      refine (Relocates.require _).bind fun block => ?_
      simp only [List.length_map]
      split
      · exact .throw_bind _
      · refine (Relocates.emit _).bind fun _ => (blocks body args []).bind fun returned => ?_
        cases returned <;> exact .pure _

theorem runOp_relocates (id : OpId) (frame : Frame) :
    Relocates past (Step.moved past.heap.size) (runOp module run id frame)
      (runOp module run id (frame.moved past.heap.size)) := by
  have define (datum : Datum) : Step.moved past.heap.size (.next (frame.define (.result id 0) datum)) =
      .next ((frame.moved past.heap.size).define (.result id 0) (datum.moved past.heap.size)) :=
    congrArg Step.next (frame.moved_define _ _ datum)
  have scalar {near far : Exec Scalar} (steady : Steady past near far) :
      Relocates past (Step.moved past.heap.size)
        (do return .next (frame.define (.result id 0) (.scalar (← near))))
        (do return .next ((frame.moved past.heap.size).define (.result id 0) (.scalar (← far)))) :=
    steady.bind fun value => define (.scalar value) ▸ .pure _
  refine (Relocates.require _).bind fun op => ?_
  dsimp only
  split
  · exact .pure _
  · exact .pure _
  · exact (Relocates.mapM lookup_relocates _).bind fun values => .pure _
  · exact scalar (Site.constant_relocates _)
  · exact (Site.alloc_relocates _).bind fun handle => define (.buffer handle) ▸ .pure _
  · exact scalar (Site.load_relocates _)
  · exact (Site.store_relocates _).bind fun _ => .pure _
  · exact (runLoop_relocates blocks _).bind fun _ => .pure _
  · refine (runConditional_relocates blocks _).bind fun returned => ?_
    cases returned <;> exact .pure _
  · cases op.attr? "callee" with
    | none => exact .throw_bind _
    | some attr =>
        refine Relocates.andThen (.pure _) fun callee => ?_
        cases module.function? callee with
        | none => exact .throw _
        | some func =>
            refine (Relocates.mapM lookup_relocates _).bind fun args => ?_
            refine (runFunction_relocates blocks func callee args).bind fun values => ?_
            rw [← moved_defineResults]
            exact .pure _
  · exact scalar (Site.cast_relocates _)
  · exact scalar (Site.cast_relocates _)
  · exact scalar (Site.select_relocates _)
  · exact scalar (Site.getBit_relocates _)
  · exact scalar (Site.compareInts_relocates _)
  · exact scalar (Site.compareInts_relocates _)
  · exact scalar (Site.compareFloats_relocates _)
  · exact scalar (Site.arithmetic_relocates _)

theorem runOps_relocates (ops : List OpId) (frame : Frame) :
    Relocates past (movedResults past.heap.size) (runOps (runOp module run) ops frame)
      (runOps (runOp module run) ops (frame.moved past.heap.size)) := by
  induction ops generalizing frame with
  | nil => exact .pure none
  | cons id rest ih =>
      refine (runOp_relocates blocks id frame).bind fun step => ?_
      cases step with
      | next frame => exact ih frame
      | returned values => exact .pure (some values)

end Blocks

theorem blocks_relocate (past : Machine) (module : Module) (depth : Nat) :
    BlocksRelocate past (runBlock module depth) := by
  induction depth with
  | zero => exact fun _ _ _ => .throw _
  | succ depth ih =>
      intro id args frame
      refine (Relocates.require _).bind fun block => ?_
      rw [← Frame.moved_enter]
      exact runOps_relocates ih block.ops (frame.enter id args)

/-! ## Calls from outside -/

theorem handles_behind (base size count : Nat) :
    handles (base + size) count = (handles size count).map (Datum.moved base) := by
  simp [handles, Datum.moved, Nat.add_assoc]

theorem scalarResults_moved (base : Nat) (func : OpId) (values : List Datum) :
    scalarResults func (values.map (Datum.moved base)) = scalarResults func values := by
  induction values with
  | nil => rfl
  | cons value rest ih =>
      cases value with
      | scalar scalar => simp only [List.map_cons, Datum.moved, scalarResults, ih]
      | buffer handle => rfl

/-- Behind the past, a call has the same reply. -/
theorem call_behind (past : Machine) (module : Module) (depth : Nat) (name : String)
    (args : List Buffer) (machine : Machine) :
    (call module depth name args (past.behind machine)).1 =
      (call module depth name args machine).1 := by
  cases named : module.function? name with
  | none => simp only [call, named]
  | some func =>
      have start : Machine.mk ((past.behind machine).heap ++ args.toArray) (past.behind machine).log =
          past.behind ⟨machine.heap ++ args.toArray, machine.log⟩ := by
        simp only [behind, Array.append_assoc]
      have size : (past.behind machine).heap.size = past.heap.size + machine.heap.size :=
        Array.size_append
      have function : Relocates past _ (runFunction module (runBlock module depth) func name
          (handles machine.heap.size args.length)) _ :=
        runFunction_relocates (blocks_relocate past module depth) func name _
      have ran := function ⟨machine.heap ++ args.toArray, machine.log⟩
      rw [call_apply named, call_apply named, start, size, handles_behind, ran]
      cases runFunction module (runBlock module depth) func name
          (handles machine.heap.size args.length) ⟨machine.heap ++ args.toArray, machine.log⟩ with
      | error error after => rfl
      | ok values after =>
          simp only [scalarResults_moved, returned, Nat.add_assoc, behind_getElem?]

/-- A used machine replies as a fresh one does. -/
theorem call_fresh (module : Module) (depth : Nat) (name : String) (args : List Buffer)
    (machine : Machine) :
    (call module depth name args machine).1 = (call module depth name args .fresh).1 := by
  have used : machine = machine.behind .fresh := by simp [behind, fresh]
  rw [used]
  exact call_behind machine module depth name args .fresh

/-- The function that is called runs to its end and returns a buffer; `left` are the buffers that
stand at the front of the heap then, where those of the caller stood. -/
def HandsOver (module : Module) (depth : Nat) (func : OpId) (name : String)
    (args left : List Buffer) : Prop :=
  ∃ values handle after, .buffer handle ∈ values ∧
    runFunction module (runBlock module depth) func name (handles 0 args.length)
      ⟨args.toArray, #[]⟩ = .ok values after ∧
    left = after.heap.toList.take args.length

/-- On a fresh machine, the buffers of the caller are the front of the heap. -/
theorem returned_zero (count : Nat) (heap : Array Buffer) :
    returned 0 count heap = heap.toList.take count := by
  induction count with
  | zero => rfl
  | succ count ih =>
      rw [List.take_add_one, ← ih, returned, List.range_succ, List.filterMap_append]
      cases found : heap[count]? <;> simp [returned, found]

/-- Only a buffer among the results is refused. -/
theorem scalarResults_refused {func : OpId} {values : List Datum} {error : RunError}
    (refused : scalarResults func values = .error error) :
    error = .operandKind func .ret .scalar ∧ ∃ handle, .buffer handle ∈ values := by
  induction values with
  | nil => cases refused
  | cons value rest ih =>
      cases value with
      | buffer handle =>
          cases refused
          exact ⟨rfl, handle, List.mem_cons_self⟩
      | scalar scalar =>
          cases later : scalarResults func rest with
          | ok scalars =>
              rw [scalarResults, later] at refused
              cases refused
          | error other =>
              rw [scalarResults, later] at refused
              cases refused
              obtain ⟨same, handle, listed⟩ := ih later
              exact ⟨same, handle, List.mem_cons_of_mem _ listed⟩

/-- A call that fails gives the buffers back unchanged, unless its function returned a buffer. -/
theorem call_failed {module : Module} {depth : Nat} {name : String} {args : List Buffer}
    {error : RunError} (failed : (call module depth name args .fresh).1.results = .error error) :
    (call module depth name args .fresh).1.buffers = args ∨
      ∃ func, module.function? name = some func ∧
        HandsOver module depth func name args (call module depth name args .fresh).1.buffers ∧
        error = .operandKind func .ret .scalar := by
  cases named : module.function? name with
  | none => exact .inl (by simp only [call, named])
  | some func =>
      rw [call_apply named] at failed ⊢
      have start : Machine.mk (fresh.heap ++ args.toArray) fresh.log = ⟨args.toArray, #[]⟩ := by
        simp [fresh]
      rw [start] at failed ⊢
      cases ran : runFunction module (runBlock module depth) func name
          (handles fresh.heap.size args.length) ⟨args.toArray, #[]⟩ with
      | error other after => exact .inl rfl
      | ok values after =>
          rw [ran] at failed
          obtain ⟨same, handle, listed⟩ := scalarResults_refused failed
          exact .inr ⟨func, rfl, ⟨values, handle, after, listed, ran, returned_zero ..⟩, same⟩

/-- **Reuse is not seen.** Whatever was done with a machine before, and whichever calls are made on
it one after the other, each of them replies as it does on a fresh machine, with the same results or
the same failure and the same buffers. If it fails, then the buffers are those that the caller gave,
unless the function ran to its end and returned a buffer; then they are as the function left them. -/
theorem reuse_unseen (module : Module) (depth : Nat) (requests : List (String × List Buffer))
    (machine : Machine) :
    (callAll module depth requests machine).1 =
        requests.map (fun request => (call module depth request.1 request.2 .fresh).1) ∧
      ∀ request ∈ requests, ∀ error,
        (call module depth request.1 request.2 .fresh).1.results = .error error →
        (call module depth request.1 request.2 .fresh).1.buffers = request.2 ∨
          ∃ func, module.function? request.1 = some func ∧
            HandsOver module depth func request.1 request.2
              (call module depth request.1 request.2 .fresh).1.buffers ∧
            error = .operandKind func .ret .scalar := by
  refine ⟨?_, fun request _ error failed => call_failed failed⟩
  induction requests generalizing machine with
  | nil => rfl
  | cons request rest ih => simp only [callAll, List.map_cons, ih, call_fresh]

/-! ## Instances -/

/-- A function that stores at the start of a buffer and four places further. -/
def ends : Module :=
  let access (place : Int64) : List (String × Attribute) :=
    [("map", .affineMap (.constant place))]
  let drafts : List (OpDraft × BlockId) := [
    ({ kind := .func, attributes := [("sym_name", .str "ends")],
       regions := [[.memref [4] .int32]] }, ⟨0⟩),
    ({ kind := .constant, results := [.scalar .int32],
       attributes := [("value", .int 7 .int32)] }, ⟨1⟩),
    ({ kind := .store, operands := [.result ⟨1⟩ 0, .arg ⟨1⟩ 0], attributes := access 0 }, ⟨1⟩),
    ({ kind := .store, operands := [.result ⟨1⟩ 0, .arg ⟨1⟩ 0], attributes := access 3 }, ⟨1⟩),
    ({ kind := .ret }, ⟨1⟩)]
  drafts.foldl (fun module draft => (module.create draft.1 (.atEnd draft.2)).2) .empty

def shortBuffer : Buffer := ⟨[2], .int32, #[.int 1, .int 2]⟩

/-- The first call stores into a buffer that is too short and fails then; the second one, with a
buffer of four elements, does not notice. -/
theorem ends_reuse_unseen :
    (callAll ends 1 [("ends", [shortBuffer]), ("ends", [.zeros [4] .int32])] .fresh).1 =
        [⟨.error (.outOfBounds [3] [2]), [shortBuffer]⟩,
          ⟨.ok [], [⟨[4], .int32, #[.int 7, .int 0, .int 0, .int 7]⟩]⟩] ∧
      (call ends 1 "ends" [shortBuffer] .fresh).1.buffers = [shortBuffer] := by
  have unseen :=
    reuse_unseen ends 1 [("ends", [shortBuffer]), ("ends", [.zeros [4] .int32])] .fresh
  have failed : (call ends 1 "ends" [shortBuffer] .fresh).1.results =
      .error (.outOfBounds [3] [2]) := by rfl
  refine ⟨unseen.1.trans (by rfl), (unseen.2 _ List.mem_cons_self _ failed).resolve_right ?_⟩
  rintro ⟨func, -, -, same⟩
  cases same

/-- A function that stores into its buffer and returns it. -/
def lender : Module :=
  let drafts : List (OpDraft × BlockId) := [
    ({ kind := .func, attributes := [("sym_name", .str "lend")],
       regions := [[.memref [1] .int32]] }, ⟨0⟩),
    ({ kind := .constant, results := [.scalar .int32],
       attributes := [("value", .int 7 .int32)] }, ⟨1⟩),
    ({ kind := .store, operands := [.result ⟨1⟩ 0, .arg ⟨1⟩ 0],
       attributes := [("map", .affineMap (.constant 0))] }, ⟨1⟩),
    ({ kind := .ret, operands := [.arg ⟨1⟩ 0] }, ⟨1⟩)]
  drafts.foldl (fun module draft => (module.create draft.1 (.atEnd draft.2)).2) .empty

/-- The call is refused, and yet the buffer of the caller is another one afterwards. -/
theorem lender_keeps_store :
    (call lender 1 "lend" [.zeros [1] .int32] .fresh).1.results =
        .error (.operandKind ⟨0⟩ .ret .scalar) ∧
      (call lender 1 "lend" [.zeros [1] .int32] .fresh).1.buffers ≠ [.zeros [1] .int32] := by
  refine ⟨by rfl, fun same => ?_⟩
  have stored : (call lender 1 "lend" [.zeros [1] .int32] .fresh).1.buffers.map Buffer.toInts =
      [[7]] := by decide +kernel
  rw [same] at stored
  exact absurd stored (by decide +kernel)

end Machine

end AffineKernel
