import AffineKernel.Proofs.IR.Nesting
import AffineKernel.Proofs.Semantics.Reduction
import AffineKernel.Proofs.Semantics.Typing

/-!
# Safety of operations and blocks

A module is *well typed* when each of its operations obeys its signature, none
of them is a call, and all types are valid. One operation in a typed frame and
over a heap whose elements fit their types ends in such a state again, or in an
overflow, or in a failure that types do not exclude (`Machine.runOp_safe`). It
follows for lists of operations, and for blocks by induction on the depth to
which they may nest (`Machine.blocks_safe`). A module nests no deeper than it
has blocks, so a depth of that number is never exceeded.
-/

set_option autoImplicit false

namespace AffineKernel

/-- A module without calls in which every operation obeys its signature, and every value and every
literal has a proper type. -/
structure Module.WellTyped (module : Module) : Prop where
  assembled : module.Assembled
  obeys : ∀ {id : OpId} {op : Operation}, module.op? id = some op → op.Obeys module
  callFree : ∀ {id : OpId} {op : Operation}, module.op? id = some op → op.kind ≠ .call
  proper : ∀ {value : Value} {type : ValueType}, module.valueType? value = some type →
    type.dtype.Proper
  literal : ∀ {id : OpId} {op : Operation}, module.op? id = some op → op.kind = .constant →
    ∀ attr ∈ op.attr? "value", attr.Proper

namespace Machine

/-- A state in the middle of a run: the frame is typed, and the buffers are filled. -/
structure Sound (module : Module) (base : Nat) (frame : Frame) (machine : Machine) : Prop where
  typed : frame.Typed module base machine.heap
  fits : HeapFits base machine.heap
  above : base ≤ machine.heap.size

/-- What a part of a run leaves of the heap. -/
structure Follows (base : Nat) (before after : Machine) : Prop where
  keeps : HeapKeeps before.heap after.heap
  fits : HeapFits base after.heap

/-- Data that are all scalars. -/
def AllScalars (values : List Datum) : Prop := ∀ datum ∈ values, ∃ scalar, datum = .scalar scalar

/-- How an operation of a well-typed module ends. -/
def StepSound (module : Module) (base : Nat) (before : Machine) (step : Step) (after : Machine) :
    Prop :=
  Follows base before after ∧
    match step with
    | .next frame => frame.Typed module base after.heap
    | .returned values => AllScalars values

/-- How a block of a well-typed module ends. -/
def BlockSound (base : Nat) (before : Machine) (outcome : Option (List Datum)) (after : Machine) :
    Prop :=
  Follows base before after ∧ ∀ values ∈ outcome, AllScalars values

section

variable {module : Module} {base : Nat} {frame : Frame} {before machine after : Machine}

theorem Follows.of_heap_eq (sound : Sound module base frame machine)
    (same : after.heap = machine.heap) : Follows base machine after :=
  ⟨same ▸ .refl _, same ▸ sound.fits⟩

theorem Follows.trans (first : Follows base before machine) (second : Follows base machine after) :
    Follows base before after :=
  ⟨first.keeps.trans second.keeps, second.fits⟩

/-- The frame of a state is still typed later. -/
theorem Sound.follow (sound : Sound module base frame machine)
    (follows : Follows base machine after) : Sound module base frame after :=
  ⟨sound.typed.of_keeps follows.keeps, follows.fits,
    Nat.le_trans sound.above follows.keeps.size_le⟩

end

/-! ## Operations -/

section Found

variable {module : Module} {run : RunBlock} {id : OpId} {op : Operation} {base : Nat}
  {frame : Frame} {machine : Machine} {dtype : DType} (found : module.op? id = some op)
  (sound : Sound module base frame machine)
include found sound

/-- An operation that defines a scalar result of its type. -/
theorem defining_safe {action : Exec Scalar}
    (runs : runOp module run id frame = defining id frame action)
    (results : op.results = [.scalar dtype])
    (safe : Safe (action machine) fun scalar last =>
      last.heap = machine.heap ∧ scalar.Fits dtype) :
    Safe (runOp module run id frame machine) (StepSound module base machine) := by
  have known : module.valueType? (.result id 0) = some (.scalar dtype) := by
    simp [Module.valueType?, found, results]
  rw [runs]
  refine safe.bind fun scalar last computed => ?_
  refine ⟨.of_heap_eq sound computed.1, ?_⟩
  have typed : frame.Typed module base last.heap := computed.1.symm ▸ sound.typed
  exact typed.define known computed.2

theorem load_safe {memref : Value} {indices : List Value} {shape : List Nat} {map : AffineMap}
    {exact : Prop} (operands : op.operands = memref :: indices)
    (accesses : op.Accesses exact module memref indices dtype shape map) :
    Safe ((site found).load frame machine) fun scalar last =>
      last.heap = machine.heap ∧ scalar.Fits dtype := by
  have listed : (site found).op.operands[0]? = some memref := by simp [operands]
  have others : (site found).op.operands.drop 1 = indices := by simp [operands]
  rw [Site.load, Site.operand_eq listed, pure_bind, others]
  refine (Site.buffer_reads (site found) sound.typed accesses.buffer).safe_bind
    fun handle middle same placed => ?_
  refine (Site.access_reads (site found) sound.typed accesses).safe_bind
    fun tuple last sameLast _ => ?_
  obtain ⟨above, buffer, held, -, element⟩ := placed
  have heap : last.heap = machine.heap := sameLast.trans same
  rw [EStateM.get_bind_apply, heap, held, require, pure_bind]
  cases read : buffer.get? tuple with
  | none => exact rfl
  | some scalar =>
      obtain ⟨offset, -, read⟩ := Option.bind_eq_some_iff.mp read
      have fits := (sound.fits handle buffer above held).elements scalar (Array.mem_of_getElem? read)
      exact ⟨heap, element ▸ fits⟩

theorem store_safe {value memref : Value} {indices : List Value} {shape : List Nat}
    {map : AffineMap} {exact : Prop} (operands : op.operands = value :: memref :: indices)
    (known : module.valueType? value = some (.scalar dtype))
    (accesses : op.Accesses exact module memref indices dtype shape map) :
    Safe ((site found).store frame machine) fun _ last => Follows base machine last := by
  have listed : (site found).op.operands[0]? = some value := by simp [operands]
  have listedBuffer : (site found).op.operands[1]? = some memref := by simp [operands]
  have others : (site found).op.operands.drop 2 = indices := by simp [operands]
  rw [Site.store, Site.operand_eq listed, pure_bind, Site.operand_eq listedBuffer, others]
  refine (Site.scalar_reads (site found) sound.typed known).safe_bind
    fun scalar first sameFirst fits => ?_
  rw [pure_bind]
  refine (Site.buffer_reads (site found) sound.typed accesses.buffer).safe_bind
    fun handle middle same placed => ?_
  refine (Site.access_reads (site found) sound.typed accesses).safe_bind
    fun tuple last sameLast _ => ?_
  obtain ⟨above, buffer, held, -, element⟩ := placed
  have heap : last.heap = machine.heap := (sameLast.trans same).trans sameFirst
  rw [Site.shapeOf, bind_assoc, EStateM.get_bind_apply, heap, held, Option.map_some, require,
    pure_bind]
  cases Buffer.offset? buffer.shape tuple with
  | none => exact rfl
  | some offset =>
      have stored : Follows base machine
          ⟨last.heap.modify handle fun buffer => buffer.put offset scalar, last.log⟩ := by
        constructor
        · simp only [heap]
          exact HeapKeeps.put machine.heap handle offset scalar
        · simp only [heap]
          exact sound.fits.put held (element ▸ fits) offset
      exact stored

theorem alloc_safe (valid : dtype.Valid) (kind : op.kind = .alloc) {shape : List Nat}
    (results : op.results = [.memref shape dtype]) :
    Safe (runOp module run id frame machine) (StepSound module base machine) := by
  have known : module.valueType? (.result id 0) = some (.memref shape dtype) := by
    simp [Module.valueType?, found, results]
  have keeps := HeapKeeps.push machine.heap (.zeros shape dtype)
  cases small : Buffer.allocates shape with
  | false =>
      rw [alloc_overflows found kind results small]
      exact rfl
  | true =>
      rw [alloc_apply found kind results small]
      refine ⟨⟨keeps, sound.fits.push (Buffer.zeros_fits shape valid)⟩, ?_⟩
      refine (sound.typed.of_keeps keeps).define known
        ⟨sound.above, .zeros shape dtype, ?_, rfl, rfl⟩
      exact Array.getElem?_push_size

theorem ret_safe (kind : op.kind = .ret)
    (scalars : ∀ operand ∈ op.operands, ∃ dtype,
      module.valueType? operand = some (.scalar dtype)) :
    Safe (runOp module run id frame machine) (StepSound module base machine) := by
  have reads : Reads (op.operands.mapM (lookup frame)) AllScalars := by
    refine .mapM fun operand listed => ?_
    obtain ⟨dtype, known⟩ := scalars operand listed
    refine (Site.lookup_reads (site found) sound.typed known).mono fun datum typed => ?_
    cases datum with
    | buffer handle => exact typed.elim
    | scalar scalar => exact ⟨scalar, rfl⟩
  rw [runOp_ret found kind]
  refine reads.safe_bind fun values last same all => ?_
  exact ⟨.of_heap_eq sound same, all⟩

end Found

/-! ## Loops and conditionals -/

/-- A word is an index. -/
theorem word_fits (word : Int64) : (Scalar.int word.toInt).Fits .index :=
  fits_index_iff.mpr ⟨word.le_toInt, word.toInt_lt⟩

/-- A bound of a loop, picked among words. -/
theorem picked_fits {words : List Int64} {pick : List Int → Option Int}
    (picks : ∀ numbers number, pick numbers = some number → number ∈ numbers) :
    (Scalar.int ((pick (words.map Int64.toInt)).getD 0)).Fits .index := by
  cases picked : pick (words.map Int64.toInt) with
  | none => exact fits_index_iff.mpr ⟨by decide, by decide⟩
  | some number =>
      obtain ⟨word, -, rfl⟩ := List.mem_map.mp (picks _ _ picked)
      exact word_fits word

/-- The numbers of a loop are indices. -/
structure LoopRange.Sound (range : LoopRange) : Prop where
  low : (Scalar.int range.low).Fits .index
  high : (Scalar.int range.high).Fits .index
  step : 0 < range.step

/-- The counters of a loop are indices. -/
theorem LoopRange.Sound.counter {range : LoopRange} (sound : range.Sound) {position : Nat}
    (small : position < iterations range.low range.high range.step) :
    (Scalar.int (range.low + position * range.step)).Fits .index := by
  have low := fits_index_iff.mp sound.low
  have high := fits_index_iff.mp sound.high
  have below := counter_lt sound.step small
  have forward : 0 ≤ (position : Int) * range.step :=
    Int.mul_nonneg (Int.natCast_nonneg position) (Int.le_of_lt sound.step)
  exact fits_index_iff.mpr ⟨by omega, by omega⟩

section Control

variable (site : Site) {base : Nat} {heap : Array Buffer} {frame : Frame}
  (typed : frame.Typed site.module base heap)
  (indices : ∀ operand ∈ site.op.operands,
    site.module.valueType? operand = some (.scalar .index))
include typed indices

theorem loopRange_reads {lower upper : AffineMap} {step : Int64}
    (lowerKnown : (site.op.attr? "lower_bound").bind Attribute.asMap? = some lower)
    (upperKnown : (site.op.attr? "upper_bound").bind Attribute.asMap? = some upper)
    (stepKnown : (site.op.attr? "step").bind Attribute.asInt? = some step) :
    Reads (site.loopRange frame) LoopRange.Sound := by
  simp only [Site.loopRange, Site.attr_eq lowerKnown, Site.attr_eq upperKnown,
    Site.attr_eq stepKnown, pure_bind]
  refine (Site.words_reads site typed fun operand listed =>
    indices operand (List.mem_of_mem_take listed)).bind fun lowerWords _ => ?_
  refine (Site.words_reads site typed fun operand listed =>
    indices operand (List.mem_of_mem_drop listed)).bind fun upperWords _ => ?_
  refine (site.evalMap_reads lower lowerWords).bind fun lowerBounds _ => ?_
  refine (site.evalMap_reads upper upperWords).bind fun upperBounds _ => .pure ⟨?_, ?_, ?_⟩
  · exact picked_fits fun numbers number picked => List.max?_mem picked
  · exact picked_fits fun numbers number picked => List.min?_mem picked
  · exact Int.lt_of_lt_of_le (by decide) (Int.le_max_right ..)

theorem branch_reads {condition : IntegerSet}
    (known : (site.op.attr? "condition").bind Attribute.asSet? = some condition) :
    Reads (site.branch frame) fun region => ∀ block ∈ region, block ∈ site.op.regions := by
  rw [Site.branch, Site.attr_eq known, pure_bind]
  refine (Site.words_reads site typed indices).bind fun words _ => ?_
  refine (site.checked_reads _).bind fun _ _ => (site.defined_reads _).bind fun taken _ => ?_
  exact .pure fun block listed => List.mem_of_getElem? listed

end Control

/-- A loop whose body keeps a property of the machine. -/
theorem iterate_safe {body : Int → Exec Unit} {step : Int} {good : Machine → Prop} :
    ∀ {count : Nat} {low : Int} {machine : Machine},
      (∀ position < count, ∀ before, good before →
        Safe (body (low + position * step) before) fun _ last => good last) →
      good machine → Safe (iterate body step count low machine) fun _ last => good last := by
  intro count
  induction count with
  | zero => exact fun _ holds => holds
  | succ count ih =>
      intro low machine each holds
      rw [iterate]
      have first := each 0 (Nat.zero_lt_succ count) machine holds
      simp only [Int.natCast_zero, Int.zero_mul, Int.add_zero] at first
      refine first.bind fun _ middle reached => ih (fun position small before holds => ?_) reached
      have later := each (position + 1) (Nat.succ_lt_succ small) before holds
      rwa [counter_succ] at later

/-! ## Steps and runs -/

variable {module : Module} {base : Nat}

/-- The data that a block is entered with have the types of its arguments. -/
def ArgsTyped (base : Nat) (heap : Array Buffer) (block : Block) (args : List Datum) : Prop :=
  ∀ (position : Nat) (datum : Datum), args[position]? = some datum →
    ∃ type, block.args[position]? = some type ∧ datum.Typed base heap type

/-- Running the regions of an operation in a frame is safe. -/
def RegionsSafe (module : Module) (base : Nat) (run : RunBlock) (op : Operation) (frame : Frame) :
    Prop :=
  ∀ region ∈ op.regions, ∀ block args before, module.block? region = some block →
    Sound module base frame before → ArgsTyped base before.heap block args →
    Safe (run region args frame before) (BlockSound base before)

section Found

variable {run : RunBlock} {id : OpId} {op : Operation} {frame : Frame} {machine : Machine}
  (sound : Sound module base frame machine) (regions : RegionsSafe module base run op frame)
include sound regions

/-- The iterations of a loop. -/
theorem iterations_safe {body : BlockId} {block : Block} {range : LoopRange} {count : Nat}
    (inside : body ∈ op.regions) (listed : module.block? body = some block)
    (args : block.args = [.scalar .index]) (ranged : range.Sound)
    (few : count ≤ iterations range.low range.high range.step) :
    Safe (iterate (fun current => do let _ ← run body [.scalar (.int current)] frame) range.step
      count range.low machine) fun _ last => Follows base machine last := by
  refine iterate_safe (fun position small before follows => ?_) (.of_heap_eq sound rfl)
  have counter := ranged.counter (Nat.lt_of_lt_of_le small few)
  refine Safe.bind (regions body inside block _ before listed (sound.follow follows) ?_)
    fun _ last ended => follows.trans ended.1
  intro place datum given
  cases place with
  | zero =>
      cases given
      exact ⟨.scalar .index, by rw [args]; rfl, counter⟩
  | succ place => cases given

variable (found : module.op? id = some op)
include found

theorem loop_safe (kind : op.kind = .affineFor) (obeys : op.Admits False module .loop) :
    Safe (runOp module run id frame machine) (StepSound module base machine) := by
  obtain ⟨indices, ⟨lower, upper, lowerKnown, upperKnown, -⟩, ⟨step, stepKnown⟩,
    ⟨body, only, args⟩, -⟩ := obeys
  obtain ⟨block, listed, args⟩ := Option.map_eq_some_iff.mp args
  rw [runOp_loop found kind, runLoop, bind_assoc]
  refine (loopRange_reads (site found) sound.typed indices lowerKnown upperKnown
    stepKnown).safe_bind fun range entry same ranged => ?_
  have follows := Follows.of_heap_eq sound same
  have inside : body ∈ op.regions := by simp [only]
  simp only [only, List.head?_cons, require, pure_bind]
  rw [bind_assoc]
  refine (iterations_safe (sound.follow follows) regions inside listed args ranged
    (Nat.le_refl _)).bind fun _ last ran => ?_
  refine ((site found).checked_reads _).safe_bind fun _ after same _ => ?_
  have done := (follows.trans ran).trans (.of_heap_eq ((sound.follow follows).follow ran) same)
  exact ⟨done, (sound.follow done).typed⟩

theorem conditional_safe (kind : op.kind = .affineIf)
    (obeys : op.Admits False module .conditional) :
    Safe (runOp module run id frame machine) (StepSound module base machine) := by
  obtain ⟨indices, ⟨condition, known⟩, args, -⟩ := obeys
  rw [runOp_conditional found kind, runConditional, bind_assoc]
  refine (branch_reads (site found) sound.typed indices known).safe_bind
    fun region entry same inside => ?_
  have follows := Follows.of_heap_eq sound same
  have entered := sound.follow follows
  cases region with
  | none => exact ⟨follows, entered.typed⟩
  | some body =>
      obtain ⟨block, listed, empty⟩ := Option.map_eq_some_iff.mp (args body (inside body rfl))
      have ran := regions body (inside body rfl) block [] entry listed entered
        fun position datum given => by cases given
      refine ran.bind fun outcome last ended => ?_
      cases outcome with
      | none => exact ⟨follows.trans ended.1, (entered.follow ended.1).typed⟩
      | some values => exact ⟨follows.trans ended.1, ended.2 values rfl⟩

/-- **One operation.** In a sound state, an operation of a well-typed module ends in a sound state
or in a failure that types do not exclude, if its regions do. -/
theorem runOp_safe (typed : module.WellTyped) :
    Safe (runOp module run id frame machine) (StepSound module base machine) := by
  have obeys := typed.obeys found
  rw [Operation.Obeys] at obeys
  cases kind : op.kind with
  | constant =>
      rw [kind] at obeys
      obtain ⟨-, ⟨dtype, results⟩, value, known, number⟩ := obeys
      exact defining_safe found sound (runOp_constant found kind) results
        (constant_reads found results known number machine)
  | negF | exp | log | log2 | log10 | sqrt | sin | cos | tanh | floor =>
      have sort : op.kind.signature = .function := by rw [kind]; rfl
      rw [sort] at obeys
      obtain ⟨operand, dtype, operands, known, results, float⟩ := obeys
      have arithmetic : op.kind.isArithmetic = true := by rw [kind]; rfl
      exact defining_safe found sound (runOp_arithmetic found arithmetic) results
        (unary_reads found sound.typed sort operands known results float machine)
  | addI | subI | mulI | divSI | divUI | floorDivSI | remSI | remUI | minSI | maxSI | minUI | maxUI
  | shlI | shrSI | shrUI | andI | orI | xorI | addF | subF | mulF | divF | remF | minF | maxF
  | addFixed | subFixed | mulFixed | divFixed | minFixed | maxFixed =>
      have arithmetic : op.kind.isArithmetic = true := by rw [kind]; rfl
      obtain ⟨category, sort⟩ : ∃ category, op.kind.signature = .arithmetic category :=
        ⟨_, by rw [kind]; rfl⟩
      rw [sort] at obeys
      obtain ⟨lhs, rhs, left, right, operands, matched, results⟩ := obeys
      exact defining_safe found sound (runOp_arithmetic found arithmetic) results
        (arithmetic_reads found sound.typed sort operands matched results machine)
  | cmpI =>
      rw [kind] at obeys
      obtain ⟨lhs, rhs, left, right, code, operands, matched, results, known, valid⟩ := obeys
      exact defining_safe found sound (runOp_compareInts found (.inl kind)) results
        (compareInts_reads found sound.typed (by decide) operands matched known valid machine)
  | cmpFixed =>
      rw [kind] at obeys
      obtain ⟨lhs, rhs, left, right, code, operands, matched, results, known, valid⟩ := obeys
      exact defining_safe found sound (runOp_compareInts found (.inr kind)) results
        (compareInts_reads found sound.typed (by decide) operands matched known valid machine)
  | cmpF =>
      rw [kind] at obeys
      obtain ⟨lhs, rhs, left, right, code, operands, matched, results, known, valid⟩ := obeys
      exact defining_safe found sound (runOp_compareFloats found kind) results
        (compareFloats_reads found sound.typed operands matched known valid machine)
  | indexCast =>
      rw [kind] at obeys
      obtain ⟨operand, source, target, operands, known, results, -⟩ := obeys
      exact defining_safe found sound (runOp_cast found (.inl kind)) results
        (cast_reads found sound.typed operands known results machine)
  | conversionCast =>
      rw [kind] at obeys
      obtain ⟨operand, source, target, operands, known, results, -⟩ := obeys
      exact defining_safe found sound (runOp_cast found (.inr kind)) results
        (cast_reads found sound.typed operands known results machine)
  | select =>
      rw [kind] at obeys
      obtain ⟨condition, thenValue, elseValue, dtype, operands, first, second, third, results⟩ :=
        obeys
      exact defining_safe found sound (runOp_select found kind) results
        (select_reads found sound.typed operands first second third machine)
  | getBit =>
      rw [kind] at obeys
      obtain ⟨value, position, dtype, operands, first, integer, -, second, results⟩ := obeys
      exact defining_safe found sound (runOp_getBit found kind) results
        (getBit_reads found sound.typed operands first integer second machine)
  | alloc =>
      rw [kind] at obeys
      obtain ⟨-, shape, dtype, results⟩ := obeys
      have known : module.valueType? (.result id 0) = some (.memref shape dtype) := by
        simp [Module.valueType?, found, results]
      exact alloc_safe found sound (typed.proper known).1 kind results
  | load =>
      rw [kind] at obeys
      obtain ⟨memref, indices, dtype, shape, map, operands, accesses, results⟩ := obeys
      exact defining_safe found sound (runOp_load found kind) results
        (load_safe found sound operands accesses)
  | store =>
      rw [kind] at obeys
      obtain ⟨value, memref, indices, dtype, shape, map, operands, known, accesses, -⟩ := obeys
      rw [runOp_store found kind]
      refine (store_safe found sound operands known accesses).bind fun _ last follows => ?_
      exact ⟨follows, (sound.follow follows).typed⟩
  | affineFor => exact loop_safe sound regions found kind (by rwa [kind] at obeys)
  | affineIf => exact conditional_safe sound regions found kind (by rwa [kind] at obeys)
  | yield =>
      rw [runOp_idle found (.inl kind)]
      exact ⟨.of_heap_eq sound rfl, sound.typed⟩
  | func =>
      rw [runOp_idle found (.inr kind)]
      exact ⟨.of_heap_eq sound rfl, sound.typed⟩
  | ret =>
      rw [kind] at obeys
      exact ret_safe found sound kind obeys.1
  | call => exact absurd kind (typed.callFree found)

end Found

/-- Operations that a block of a module lists. -/
def Lists (module : Module) (block : BlockId) (ops : List OpId) : Prop :=
  ∀ id ∈ ops, ∃ op, module.op? id = some op ∧ op.parent = block

/-- Blocks may nest in a block to a depth of `fuel`, and no deeper than the module has blocks. -/
def Deep (module : Module) (block : BlockId) (fuel : Nat) : Prop :=
  module.blocks.size ≤ fuel + 1 + block.index

/-- Running blocks nested to a depth is safe. -/
def BlocksSafe (module : Module) (base fuel : Nat) : Prop :=
  ∀ body block args frame before, module.block? body = some block →
    module.blocks.size ≤ fuel + body.index → Sound module base frame before →
    ArgsTyped base before.heap block args →
    Safe (runBlock module fuel body args frame before) (BlockSound base before)

/-- The regions of an operation are nested less deep. -/
theorem BlocksSafe.regions (typed : module.WellTyped) {fuel : Nat}
    (safe : BlocksSafe module base fuel) {block : BlockId} (deep : Deep module block fuel)
    {id : OpId} {op : Operation} (found : module.op? id = some op) (parent : op.parent = block)
    (frame : Frame) : RegionsSafe module base (runBlock module fuel) op frame := by
  intro region inside found' args before listed sound good
  have below := (typed.assembled.forest.region found region inside).1
  rw [parent] at below
  rw [Deep] at deep
  exact safe region found' args frame before listed (by omega) sound good

/-- **Lists of operations.** -/
theorem runOps_safe (typed : module.WellTyped) {fuel : Nat} (safe : BlocksSafe module base fuel)
    {block : BlockId} (deep : Deep module block fuel) {ops : List OpId}
    (listed : Lists module block ops) {frame : Frame} {machine : Machine}
    (sound : Sound module base frame machine) :
    Safe (runOps (runOp module (runBlock module fuel)) ops frame machine)
      (BlockSound base machine) := by
  induction ops generalizing frame machine with
  | nil => exact ⟨.of_heap_eq sound rfl, fun values impossible => by cases impossible⟩
  | cons id rest ih =>
      obtain ⟨op, found, parent⟩ := listed id List.mem_cons_self
      rw [runOps]
      have step := runOp_safe sound (safe.regions typed deep found parent frame) found typed
      refine step.bind fun outcome after ended => ?_
      cases outcome with
      | returned values =>
          refine ⟨ended.1, fun returned same => ?_⟩
          cases same
          exact ended.2
      | next later =>
          have reached : Sound module base later after :=
            ⟨ended.2, ended.1.fits, Nat.le_trans sound.above ended.1.keeps.size_le⟩
          refine (ih (fun other member => listed other (List.mem_cons_of_mem id member))
            reached).mono fun outcome last done => ?_
          exact ⟨ended.1.trans done.1, done.2⟩

theorem lists_ops (typed : module.WellTyped) {body : BlockId} {block : Block}
    (listed : module.block? body = some block) : Lists module body block.ops :=
  typed.assembled.forest.listed listed

theorem Sound.enter {frame : Frame} {machine : Machine} (sound : Sound module base frame machine)
    {body : BlockId} {block : Block} (listed : module.block? body = some block)
    {args : List Datum} (good : ArgsTyped base machine.heap block args) :
    Sound module base (frame.enter body args) machine :=
  ⟨sound.typed.enter listed good, sound.fits, sound.above⟩

/-- **Blocks.** By induction on the depth: the regions of an operation are numbered after the block
that lists it, so a depth of the number of blocks suffices. -/
theorem blocks_safe (typed : module.WellTyped) (base fuel : Nat) : BlocksSafe module base fuel := by
  induction fuel with
  | zero =>
      intro body block args frame before listed deep sound good
      have small := Module.index_lt_of_block? listed
      omega
  | succ fuel ih =>
      intro body block args frame before listed deep sound good
      simp only [runBlock, listed, require, pure_bind]
      exact runOps_safe typed ih (by rw [Deep]; omega) (lists_ops typed listed)
        (sound.enter listed good)

end Machine

end AffineKernel
