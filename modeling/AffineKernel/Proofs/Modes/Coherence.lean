import AffineKernel.Proofs.Modes.Evaluation
import AffineKernel.Proofs.Semantics.Frames

/-!
# What a frame remembers

While a function runs, its frame holds the results of pure operations. Each of
them was computed from operands that the frame still holds, and if it was read
from a buffer, the buffer has not changed since (`Computed`): a module in which
no buffer is both read by pure loads and stored to (`Module.Parted`) has no
operation that could change it, as each buffer of the frame is the buffer of one
value only. A frame with all this is *coherent* (`Frame.Coherent`). It stays
coherent when a value is defined, when a block is entered and left, and as long
as the heap protects the buffers that are read (`Machine.Protects`).

So the result of a pure operation is determined by the data of its operands,
though it may have been computed long ago.
-/

set_option autoImplicit false

namespace AffineKernel

/-! ## Buffers that are read and buffers that are stored to -/

namespace Module

/-- A pure load reads the buffer of a value. -/
def Reads (module : Module) (value : Value) : Prop :=
  ∃ id op, module.op? id = some op ∧ op.isPure = true ∧ op.kind = .load ∧
    op.operands[0]? = some value

/-- A store changes the buffer of a value. -/
def Writes (module : Module) (value : Value) : Prop :=
  ∃ id op, module.op? id = some op ∧ op.kind = .store ∧ op.operands[1]? = some value

/-- No buffer is both read by pure loads and stored to, and nothing is called. -/
structure Parted (module : Module) : Prop where
  apart : ∀ {value : Value}, module.Reads value → ¬ module.Writes value
  uncalled : ∀ {id : OpId} {op : Operation}, module.op? id = some op → op.kind ≠ .call

end Module

/-! ## Frames that grow -/

/-- A value that is there before some operations of a block are run: it is none of their results,
and comes from this block or from one that is numbered before it. -/
def Value.Earlier (module : Module) (block : BlockId) (ops : List OpId) : Value → Prop
  | .result id _ => id ∉ ops ∧ ∃ op, module.op? id = some op ∧ op.parent.index ≤ block.index
  | .arg around _ => around.index ≤ block.index

namespace Frame

/-- All values of a frame are values of another one. -/
def Keeps (frame next : Frame) : Prop :=
  ∀ value datum, frame.find? value = some datum → next.find? value = some datum

/-- The values of a frame were made before some operations of a block. -/
def Past (frame : Frame) (module : Module) (block : BlockId) (ops : List OpId) : Prop :=
  ∀ value datum, frame.find? value = some datum → value.Earlier module block ops

variable {module : Module} {frame : Frame} {ops rest : List OpId} {id : OpId}
  {block region : BlockId} {args : List Datum}

theorem Keeps.refl (frame : Frame) : frame.Keeps frame := fun _ _ found => found

theorem Past.tail (past : frame.Past module block (id :: rest)) : frame.Past module block rest := by
  intro value datum found
  have earlier := past value datum found
  cases value with
  | result op position => exact ⟨fun late => earlier.1 (List.mem_cons_of_mem _ late), earlier.2⟩
  | arg around position => exact earlier

/-- The result of a later operation is not there. -/
theorem Past.fresh (past : frame.Past module block ops) (late : id ∈ ops) (position : Nat) :
    frame.find? (.result id position) = none := by
  cases found : frame.find? (.result id position) with
  | none => rfl
  | some datum => exact absurd late (past _ _ found).1

theorem Past.keeps_define (past : frame.Past module block ops) (late : id ∈ ops) (datum : Datum) :
    frame.Keeps (frame.define (.result id 0) datum) := by
  intro value found known
  rw [find?_define_of_ne, known]
  rintro rfl
  rw [past.fresh late] at known
  cases known

/-- What is found after a value was defined. -/
theorem find?_define_cases {value other : Value} {datum found : Datum}
    (known : (frame.define value datum).find? other = some found) :
    other = value ∧ found = datum ∨ frame.find? other = some found := by
  by_cases same : value = other
  · subst same
    by_cases entered : frame = []
    · rw [entered] at known
      cases known
    · rw [find?_define_self entered] at known
      exact .inl ⟨rfl, (Option.some.inj known).symm⟩
  · rw [find?_define_of_ne same] at known
    exact .inr known

theorem Past.define (past : frame.Past module block (id :: rest)) (once : id ∉ rest)
    {op : Operation} (there : module.op? id = some op) (parent : op.parent = block)
    (datum : Datum) : (frame.define (.result id 0) datum).Past module block rest := by
  intro value found known
  rcases find?_define_cases known with ⟨rfl, -⟩ | old
  · exact ⟨once, op, there, Nat.le_of_eq (congrArg BlockId.index parent)⟩
  · exact past.tail value found old

/-- What is found in a block that was entered. -/
theorem find?_enter_cases {value : Value} {datum : Datum}
    (known : (frame.enter block args).find? value = some datum) :
    (∃ position : Nat, value = .arg block position ∧ args[position]? = some datum) ∨
      frame.find? value = some datum := by
  simp only [enter, find?, List.findSome?_cons] at known
  split at known
  · rename_i here looked
    cases known
    obtain ⟨position, listed, given⟩ := Table.exists_of_find?_zip looked
    simp only [List.getElem?_map, Option.map_eq_some_iff] at listed
    obtain ⟨place, ranged, rfl⟩ := listed
    obtain ⟨-, rfl⟩ := List.getElem?_eq_some_iff.mp ranged
    rw [List.getElem_range]
    exact .inl ⟨position, rfl, given⟩
  · exact .inr known

theorem Past.keeps_enter (past : frame.Past module block ops) (inner : block.index < region.index) :
    frame.Keeps (frame.enter region args) := by
  intro value datum known
  rw [find?_enter_of_ne, known]
  rintro position rfl
  exact absurd (past _ _ known : region.index ≤ block.index) (Nat.not_le_of_lt inner)

/-- A block further inside is entered before all of its operations. -/
theorem Past.enter (past : frame.Past module block ops) (inner : block.index < region.index)
    {listed : List OpId}
    (there : ∀ id ∈ listed, ∃ op, module.op? id = some op ∧ op.parent = region) :
    (frame.enter region args).Past module region listed := by
  intro value datum known
  rcases find?_enter_cases known with ⟨position, rfl, -⟩ | old
  · exact Nat.le_refl _
  · have earlier := past value datum old
    cases value with
    | result id position =>
        obtain ⟨-, op, found, outside⟩ := earlier
        refine ⟨fun member => ?_, op, found, by omega⟩
        obtain ⟨again, also, parent⟩ := there id member
        cases found.symm.trans also
        rw [parent] at outside
        omega
    | arg around position => exact Nat.le_of_lt (Nat.lt_of_le_of_lt earlier inner)

end Frame

namespace Machine

/-- The buffers of a frame that are read are the same on a later heap. -/
structure Protects (module : Module) (frame : Frame) (before after : Array Buffer) : Prop where
  size_le : before.size ≤ after.size
  kept : ∀ value handle, module.Reads value → frame.find? value = some (.buffer handle) →
    handle < before.size → after[handle]? = before[handle]?

variable {module : Module} {frame next : Frame} {before middle after : Array Buffer}

theorem Protects.refl (module : Module) (frame : Frame) (heap : Array Buffer) :
    Protects module frame heap heap := ⟨Nat.le_refl _, fun _ _ _ _ _ => rfl⟩

/-- Of a frame that has grown meanwhile. -/
theorem Protects.trans (first : Protects module frame before middle) (keeps : frame.Keeps next)
    (second : Protects module next middle after) : Protects module frame before after where
  size_le := Nat.le_trans first.size_le second.size_le
  kept value handle reads found small := by
    rw [second.kept value handle reads (keeps _ _ found) (Nat.lt_of_lt_of_le small first.size_le),
      first.kept value handle reads found small]

theorem Protects.of_eq (same : after = before) : Protects module frame before after :=
  same ▸ .refl module frame before

theorem Protects.push (buffer : Buffer) : Protects module frame before (before.push buffer) where
  size_le := by simp
  kept value handle _ _ small := by
    rw [Array.getElem?_push, if_neg (Nat.ne_of_lt small)]

end Machine

/-! ## Coherence -/

/-- The result of a pure operation was computed from operands that a frame has, and from a buffer
that a heap has as it was. -/
def Computed (module : Module) (frame : Frame) (heap : Array Buffer) (id : OpId) (op : Operation)
    (datum : Datum) : Prop :=
  ∃ (before : Frame) (machine last : Machine) (scalar : Scalar), datum = .scalar scalar ∧
    (⟨module, id, op⟩ : Machine.Site).value before machine = .ok scalar last ∧
    (∀ value ∈ op.operands, ∀ datum, before.find? value = some datum →
      frame.find? value = some datum) ∧
    (op.kind = .load → ∀ value handle, op.operands[0]? = some value →
      before.find? value = some (.buffer handle) → machine.heap[handle]? = heap[handle]?)

/-- Each buffer of a frame is on the heap and is that of one value, and the results of pure
operations are as they would be computed now. -/
structure Frame.Coherent (module : Module) (frame : Frame) (heap : Array Buffer) : Prop where
  valid : ∀ value handle, frame.find? value = some (.buffer handle) → handle < heap.size
  single : ∀ value other handle, frame.find? value = some (.buffer handle) →
    frame.find? other = some (.buffer handle) → value = other
  computed : ∀ id op datum, module.op? id = some op → op.isPure = true →
    frame.find? (.result id 0) = some datum → Computed module frame heap id op datum

namespace Frame.Coherent

variable {module : Module} {frame : Frame} {heap after : Array Buffer} {id : OpId}
  {block : BlockId} {ops : List OpId}

/-- On a later heap that protects what is read. -/
theorem later (coherent : frame.Coherent module heap)
    (protects : Machine.Protects module frame heap after) :
    frame.Coherent module after where
  valid value handle found :=
    Nat.lt_of_lt_of_le (coherent.valid value handle found) protects.size_le
  single := coherent.single
  computed id op datum known pure found := by
    obtain ⟨before, machine, last, scalar, same, ran, operands, loaded⟩ :=
      coherent.computed id op datum known pure found
    refine ⟨before, machine, last, scalar, same, ran, operands, fun kind value handle listed had =>
      ?_⟩
    have here := operands value (List.mem_of_getElem? listed) _ had
    rw [loaded kind value handle listed had,
      protects.kept value handle ⟨id, op, known, pure, kind, listed⟩ here
        (coherent.valid value handle here)]

/-- With the result of one more operation. -/
theorem define (coherent : frame.Coherent module heap) (past : frame.Past module block ops)
    (late : id ∈ ops) {datum : Datum}
    (buffer : ∀ handle, datum = .buffer handle → handle < heap.size ∧
      ∀ value, frame.find? value ≠ some (.buffer handle))
    (computed : ∀ op, module.op? id = some op → op.isPure = true →
      Computed module frame heap id op datum) :
    (frame.define (.result id 0) datum).Coherent module heap where
  valid value handle known := by
    rcases find?_define_cases known with ⟨-, same⟩ | old
    · exact (buffer handle same.symm).1
    · exact coherent.valid value handle old
  single value other handle known again := by
    rcases find?_define_cases known with ⟨rfl, same⟩ | old
    · rcases find?_define_cases again with ⟨rfl, -⟩ | past
      · rfl
      · exact absurd past ((buffer handle same.symm).2 other)
    · rcases find?_define_cases again with ⟨rfl, same⟩ | also
      · exact absurd old ((buffer handle same.symm).2 value)
      · exact coherent.single value other handle old also
  computed new op found known pure there := by
    have keeps := past.keeps_define late datum
    have made : Computed module frame heap new op found := by
      rcases find?_define_cases there with ⟨same, rfl⟩ | old
      · cases same
        exact computed op known pure
      · exact coherent.computed new op found known pure old
    obtain ⟨before, machine, last, scalar, same, ran, operands, loaded⟩ := made
    exact ⟨before, machine, last, scalar, same, ran, fun value listed datum had =>
      keeps _ _ (operands value listed datum had), loaded⟩

/-- Entering a block with scalars. -/
theorem enter (coherent : frame.Coherent module heap) (past : frame.Past module block ops)
    {region : BlockId} (inner : block.index < region.index) {args : List Datum}
    (scalars : ∀ datum ∈ args, ∃ scalar, datum = .scalar scalar) :
    (frame.enter region args).Coherent module heap := by
  have old : ∀ {value : Value} {handle : Nat},
      (frame.enter region args).find? value = some (.buffer handle) →
      frame.find? value = some (.buffer handle) := by
    intro value handle known
    rcases find?_enter_cases known with ⟨position, -, given⟩ | old
    · obtain ⟨scalar, same⟩ := scalars _ (List.mem_of_getElem? given)
      cases same
    · exact old
  refine ⟨fun value handle known => coherent.valid value handle (old known),
    fun value other handle known again => coherent.single value other handle (old known)
      (old again),
    fun id op datum known pure found => ?_⟩
  rw [find?_enter_of_ne (by simp)] at found
  obtain ⟨before, machine, last, scalar, same, ran, operands, loaded⟩ :=
    coherent.computed id op datum known pure found
  exact ⟨before, machine, last, scalar, same, ran, fun value listed datum had =>
    past.keeps_enter inner _ _ (operands value listed datum had), loaded⟩

end Frame.Coherent

end AffineKernel
