import AffineKernel.Proofs.Semantics.FixedPoint
import AffineKernel.Proofs.Semantics.Safety
import AffineKernel.Proofs.Semantics.Scopes

/-!
# Well-typed modules

A function of a well-typed module is called with buffers of the types of its
arguments. At every point of the call, each scalar of the frame and each element
of a buffer lies in the range of its static type, because every step from point
to point keeps a point sound (`Machine.Proceeds.sound`).

If the call fails, then in one of two ways. The failure is one that types do not
exclude: the number of arguments, a value without a definition, an access out of
bounds or a division by zero. Or a number leaves the integers that hold it, in an
operation that the call gets to (`Machine.Exceeds`). There are two quotients of
fixed point numbers that do so, both by minus one, of the dividend that is
brought up to the least register. So a call of a well-typed module can fail in
another way than the four (`Machine.ratio_overflows`).
-/

set_option autoImplicit false

namespace AffineKernel

/-- Buffers that a function can be called with: their shapes and element types are those of the
arguments of the function, and their elements fit. -/
structure Module.Suits (module : Module) (func : OpId) (args : List Buffer) : Prop where
  types : ∀ {body : BlockId} {block : Block} {position : Nat} {type : ValueType} {buffer : Buffer},
    module.region? func 0 = some body → module.block? body = some block →
    block.args[position]? = some type → args[position]? = some buffer →
    type = .memref buffer.shape buffer.element
  fits : ∀ buffer ∈ args, ∀ scalar ∈ buffer.data, scalar.Fits buffer.element

/-- A float of a float type, or an integer in the raw range of another type. -/
def Scalar.InRange (dtype : DType) : Scalar → Prop
  | .float _ => dtype.isFloat = true
  | .int value => ∃ low high, dtype.rawMin? = some low ∧ dtype.rawMax? = some high ∧
      low ≤ value ∧ value ≤ high

theorem Scalar.Fits.inRange {dtype : DType} {scalar : Scalar} (fits : scalar.Fits dtype)
    (valid : dtype.Valid) : scalar.InRange dtype := by
  cases scalar with
  | float x => exact fits
  | int value =>
      obtain ⟨low, high, least, greatest, range⟩ := DType.raw_range fits.1 valid.1 valid.2
      exact ⟨low, high, least, greatest, (range value).mp fits⟩

/-! ## Points -/

/-- A point of a run of a well-typed module: its state is sound, and blocks may nest from here. -/
structure Point.Sound (module : Module) (base : Nat) (point : Point) : Prop where
  state : Machine.Sound module base point.frame point.machine
  deep : Machine.Deep module point.inner.block point.fuel
  listed : Machine.Lists module point.inner.block point.inner.rest

namespace Machine

section Points

variable {module : Module} {base : Nat} {point later : Point}

/-- A block that is entered for the operation under execution. -/
theorem sound_enter (typed : module.WellTyped) (sound : point.Sound module base) {id : OpId}
    {op : Operation} (found : module.op? id = some op) (parent : op.parent = point.inner.block)
    {body : BlockId} (member : body ∈ op.regions) {block : Block}
    (listed : module.block? body = some block) {args : List Datum} {machine : Machine}
    (entered : Machine.Sound module base point.frame machine)
    (good : ArgsTyped base machine.heap block args) {fuel : Nat} (deep : point.fuel = fuel + 1) :
    (point.enter body block.ops args machine fuel).Sound module base := by
  refine ⟨entered.enter listed good, ?_, lists_ops typed listed⟩
  have below := (typed.assembled.forest.region found body member).1
  have space := sound.deep
  rw [parent] at below
  simp only [Deep, Point.enter] at space ⊢
  omega

/-- **A step from point to point.** -/
theorem Proceeds.sound (typed : module.WellTyped) (proceeds : Proceeds module point later)
    (sound : point.Sound module base) : later.Sound module base := by
  cases proceeds with
  | @next id rest bound after current ended =>
      obtain ⟨op, found, parent⟩ := sound.listed id (by simp [current])
      have regions := (blocks_safe typed base point.fuel).regions typed sound.deep found parent
        point.frame
      have done := (runOp_safe sound.state regions found typed).of_eq ended
      refine ⟨⟨done.2, done.1.fits, ?_⟩, sound.deep, fun other member => ?_⟩
      · exact Nat.le_trans sound.state.above done.1.keeps.size_le
      · exact sound.listed other (by rw [current]; exact List.mem_cons_of_mem id member)
  | @iteration id rest op body block fuel range position entry middle current deep found kind first
      listed ranged small ran =>
      obtain ⟨other, known, parent⟩ := sound.listed id (by simp [current])
      obtain rfl : op = other := Option.some.inj (found.symm.trans known)
      have obeys := typed.obeys found
      rw [Operation.Obeys, kind] at obeys
      obtain ⟨indices, ⟨lower, upper, lowerKnown, upperKnown, -⟩, ⟨step, stepKnown⟩,
        ⟨only, single, args⟩, -⟩ := obeys
      obtain rfl : only = body := by
        rw [single] at first
        exact Option.some.inj first
      obtain ⟨block', listed', args⟩ := Option.map_eq_some_iff.mp args
      obtain rfl : block' = block := Option.some.inj (listed'.symm.trans listed)
      have member : only ∈ op.regions := by simp [single]
      obtain ⟨same, bounds⟩ := (loopRange_reads (site found) sound.state.typed indices lowerKnown
        upperKnown stepKnown point.machine).of_eq ranged
      have entered := sound.state.follow (.of_heap_eq sound.state same)
      have regions := (blocks_safe typed base (fuel + 1)).regions typed (deep ▸ sound.deep) found
        parent point.frame
      have follows := (iterations_safe entered regions member listed args bounds
        (Nat.le_of_lt small)).of_eq ran
      refine sound_enter typed sound found parent member listed (entered.follow follows) ?_ deep
      intro place datum given
      cases place with
      | zero =>
          cases given
          exact ⟨.scalar .index, by rw [args]; rfl, bounds.counter small⟩
      | succ place => cases given
  | @branch id rest op body block fuel entry current deep found kind listed chosen =>
      obtain ⟨other, known, parent⟩ := sound.listed id (by simp [current])
      obtain rfl : op = other := Option.some.inj (found.symm.trans known)
      have obeys := typed.obeys found
      rw [Operation.Obeys, kind] at obeys
      obtain ⟨indices, ⟨condition, known⟩, -, -⟩ := obeys
      obtain ⟨same, member⟩ := (branch_reads (site found) sound.state.typed indices known
        point.machine).of_eq chosen
      have entered := sound.state.follow (.of_heap_eq sound.state same)
      exact sound_enter typed sound found parent (member body rfl) listed entered
        (fun position datum given => by cases given) deep
  | call current deep found kind => exact absurd kind (typed.callFree found)

theorem sound_of_reaches (typed : module.WellTyped)
    (reaches : Relation.ReflTransGen (Proceeds module) point later)
    (sound : point.Sound module base) : later.Sound module base := by
  induction reaches with
  | refl => exact sound
  | tail _ proceeds ih => exact proceeds.sound typed ih

end Points

/-! ## Overflows -/

end Machine

theorem DType.isFixed_of_category {dtype : DType} (sort : dtype.category = .fixed) :
    dtype.isFixed = true := by
  cases dtype <;> first | rfl | cases sort

namespace Machine

/-- An operation of a well-typed module leaves the integers that hold its numbers. A division of
fixed point numbers does so for two pairs of numbers only. -/
structure Exceeds (site : Site) (frame : Frame) : Prop where
  reason : site.Overflows frame ∨ site.OverCounts frame
  quotient : site.op.kind = .divFixed →
    site.op.results = [.scalar (.fixed 64 64)] ∧
        frame.Numbers site.op.operands [-2 ^ 63, -1] ∨
      site.op.results = [.scalar (.ufixed 64 64)] ∧
        frame.Numbers site.op.operands [2 ^ 63, -1]

/-- The quotients of fixed point numbers that are too large, in a typed frame. -/
theorem Site.Overflows.quotient_cases {site : Site} {frame : Frame} {base : Nat}
    {heap : Array Buffer} (typed : site.module.WellTyped)
    (found : site.module.op? site.id = some site.op)
    (frameTyped : frame.Typed site.module base heap) (overflows : site.Overflows frame)
    (kind : site.op.kind = .divFixed) :
    site.op.results = [.scalar (.fixed 64 64)] ∧
        frame.Numbers site.op.operands [-2 ^ 63, -1] ∨
      site.op.results = [.scalar (.ufixed 64 64)] ∧
        frame.Numbers site.op.operands [2 ^ 63, -1] := by
  cases overflows with
  | length other => exact absurd (kind.symm.trans other) nofun
  | condition other => exact absurd (kind.symm.trans other) nofun
  | remainder applies =>
      cases applies with
      | load other | store other | lower other | upper other =>
          exact absurd (kind.symm.trans other) nofun
  | @quotient lhs rhs a b _ operands given overflows =>
      have obeys := typed.obeys found
      rw [Operation.Obeys, kind] at obeys
      obtain ⟨lhs', rhs', left, right, operands', matched, results⟩ := obeys
      obtain ⟨rfl, rfl⟩ : lhs = lhs' ∧ rhs = rhs' := by simpa using operands.symm.trans operands'
      have held : frame.find? lhs = some (.scalar (.int a)) := (List.cons.inj given).1
      have fits : (Scalar.int a).Fits left := frameTyped.find matched.typeLeft held
      have proper := typed.proper matched.typeLeft
      have isFixed : left.isFixed = true := DType.isFixed_of_category matched.sortLeft
      have isRaw : left.IsRaw := ⟨fits.1, proper.1, proper.2⟩
      simp only [Site.resultDType?, results, List.head?_cons, Option.map_some, Option.getD_some,
        ValueType.dtype] at overflows
      obtain ⟨least, rfl⟩ := divFixed_overflow overflows
      rw [operands]
      rcases eq_of_wrapRegister_eq_registerMin isRaw isFixed fits.2 least with
        ⟨rfl, rfl⟩ | ⟨rfl, rfl⟩
      · exact .inl ⟨results, given⟩
      · exact .inr ⟨results, given⟩

/-! ## Calls -/

/-- What the static types of a module say of a state: every scalar and every element of a buffer in
use is in the range of its type, and every handle is that of a buffer of its type. -/
structure RespectsTypes (module : Module) (base : Nat) (frame : Frame) (machine : Machine) :
    Prop where
  scalars : ∀ scope ∈ frame, ∀ value scalar, Table.find? scope value = some (.scalar scalar) →
    ∃ dtype, module.valueType? value = some (.scalar dtype) ∧ scalar.InRange dtype
  buffers : ∀ scope ∈ frame, ∀ value handle, Table.find? scope value = some (.buffer handle) →
    ∃ buffer, module.valueType? value = some (.memref buffer.shape buffer.element) ∧
      base ≤ handle ∧ machine.heap[handle]? = some buffer
  elements : ∀ (handle : Nat) (buffer : Buffer), base ≤ handle →
    machine.heap[handle]? = some buffer → ∀ scalar ∈ buffer.data, scalar.InRange buffer.element

theorem Sound.respectsTypes {module : Module} {base : Nat} {frame : Frame} {machine : Machine}
    (sound : Sound module base frame machine) (typed : module.WellTyped) :
    RespectsTypes module base frame machine where
  scalars := by
    intro scope listed value scalar looked
    obtain ⟨type, known, good⟩ := sound.typed scope listed value _ looked
    cases type with
    | scalar dtype => exact ⟨dtype, known, Scalar.Fits.inRange good (typed.proper known).1⟩
    | memref shape element => exact good.elim
  buffers := by
    intro scope listed value handle looked
    obtain ⟨type, known, good⟩ := sound.typed scope listed value _ looked
    cases type with
    | scalar dtype => exact good.elim
    | memref shape element =>
        obtain ⟨above, buffer, held, rfl, rfl⟩ := good
        exact ⟨buffer, known, above, held⟩
  elements := by
    intro handle buffer above held scalar listed
    have fits := sound.fits handle buffer above held
    exact (fits.elements scalar listed).inRange fits.valid

section Entry

variable {module : Module} (typed : module.WellTyped) {func : OpId} {body : BlockId}
  {block : Block} {args : List Buffer} (suits : module.Suits func args)
  (region : module.region? func 0 = some body) (listed : module.block? body = some block)
  (count : args.length = block.args.length) (heap : Array Buffer)
include suits region listed count

/-- Each argument of a function has the type of the buffer given for it. -/
theorem exists_argument {position : Nat} (small : position < args.length) :
    ∃ buffer, args[position]? = some buffer ∧
      block.args[position]? = some (.memref buffer.shape buffer.element) := by
  have expected : block.args[position]? = some block.args[position] :=
    List.getElem?_eq_getElem (count ▸ small)
  have given : args[position]? = some args[position] := List.getElem?_eq_getElem small
  exact ⟨_, given, suits.types region listed expected given ▸ expected⟩

include typed in
/-- The state in which a function is called. -/
theorem sound_entry (log : Array Event) :
    Sound module heap.size [] ⟨heap ++ args.toArray, log⟩ := by
  refine ⟨fun scope impossible => absurd impossible List.not_mem_nil, ?_, by simp⟩
  intro handle buffer above held
  rw [Array.getElem?_append_right above, List.getElem?_toArray] at held
  obtain ⟨small, -⟩ := List.getElem?_eq_some_iff.mp held
  obtain ⟨other, same, known⟩ := exists_argument suits region listed count small
  obtain rfl : other = buffer := Option.some.inj (same.symm.trans held)
  have static : module.valueType? (.arg body (handle - heap.size)) =
      some (.memref other.shape other.element) := by
    simp [Module.valueType?, listed, known]
  exact ⟨(typed.proper static).1, suits.fits other (List.mem_of_getElem? held)⟩

/-- The handles that a function is called with have the types of its arguments. -/
theorem handles_typed :
    ArgsTyped heap.size (heap ++ args.toArray) block (handles heap.size args.length) := by
  intro position datum entered
  simp only [handles, List.getElem?_map, Option.map_eq_some_iff] at entered
  obtain ⟨number, ranged, rfl⟩ := entered
  obtain ⟨small, rfl⟩ := List.getElem?_eq_some_iff.mp ranged
  rw [List.length_range] at small
  obtain ⟨buffer, given, known⟩ := exists_argument suits region listed count small
  refine ⟨_, known, ?_⟩
  rw [List.getElem_range]
  refine ⟨Nat.le_add_right .., buffer, ?_, rfl, rfl⟩
  rw [Array.getElem?_append_right (Nat.le_add_right ..), Nat.add_sub_cancel_left,
    List.getElem?_toArray, given]

end Entry

/-- A function that is called with too many or too few arguments. -/
theorem runFunction_mismatch {module : Module} {run : RunBlock} {func : OpId} {body : BlockId}
    {block : Block} {name : String} {args : List Datum} {machine : Machine}
    (region : module.region? func 0 = some body) (listed : module.block? body = some block)
    (differ : args.length ≠ block.args.length) :
    runFunction module run func name args machine =
      .error (.argumentMismatch name block.args.length args.length) machine := by
  simp only [runFunction, region, listed, require, pure_bind, ne_eq, differ, not_false_eq_true,
    ↓reduceIte]
  rfl

theorem scalarResults_ok (func : OpId) {values : List Datum} (all : AllScalars values) :
    ∃ scalars, scalarResults func values = .ok scalars := by
  induction values with
  | nil => exact ⟨[], rfl⟩
  | cons datum rest ih =>
      obtain ⟨scalar, rfl⟩ := all datum List.mem_cons_self
      obtain ⟨scalars, others⟩ := ih fun other listed => all other (List.mem_cons_of_mem _ listed)
      exact ⟨scalar :: scalars, by rw [scalarResults, others]; rfl⟩

/-- **Functions.** -/
theorem runFunction_safe {module : Module} (typed : module.WellTyped) {depth : Nat}
    (deep : module.blocks.size ≤ depth) {name : String} {func : OpId}
    (named : module.function? name = some func) {args : List Buffer}
    (suits : module.Suits func args) (heap : Array Buffer) (log : Array Event) :
    Safe (runFunction module (runBlock module depth) func name (handles heap.size args.length)
      ⟨heap ++ args.toArray, log⟩) fun values _ => AllScalars values := by
  obtain ⟨op, found, kind⟩ := Module.exists_of_function? named
  have obeys := typed.obeys found
  rw [Operation.Obeys, kind] at obeys
  obtain ⟨-, -, ⟨body, only⟩, -⟩ := obeys
  have region : module.region? func 0 = some body := by simp [Module.region?, found, only]
  obtain ⟨-, block, listed, -⟩ := typed.assembled.forest.region found body (by simp [only])
  have length : (handles heap.size args.length).length = args.length := by simp [handles]
  by_cases count : args.length = block.args.length
  · rw [runFunction_apply region listed (length.trans count)]
    have ran := blocks_safe typed heap.size depth body block (handles heap.size args.length) [] _
      listed (by omega) (sound_entry typed suits region listed count heap
        (log.push (.interpret name (handles heap.size args.length).length)))
      (handles_typed suits region listed count heap)
    refine ran.bind fun values last ended => ?_
    cases values with
    | none => exact fun datum impossible => absurd impossible List.not_mem_nil
    | some values => exact ended.2 values rfl
  · rw [runFunction_mismatch region listed fun same => count (length.symm.trans same)]
    exact rfl

/-- **Well-typed modules.** Call a function of a well-typed module with buffers of the types of its
arguments. At all points of the call the static types are respected. If the call fails, then for a
reason that types do not exclude, which is the number of arguments, a value without a definition, an
access out of bounds or a division by zero; or the call gets to an operation that leaves the
integers that hold its numbers. -/
theorem call_respects_types {module : Module} (typed : module.WellTyped) {depth : Nat}
    (deep : module.blocks.size ≤ depth) {name : String} {func : OpId}
    (named : module.function? name = some func) {args : List Buffer}
    (suits : module.Suits func args) (machine : Machine) :
    (∀ point, CallReaches module depth name args machine point →
      RespectsTypes module machine.heap.size point.frame point.machine) ∧
    ∀ error, (call module depth name args machine).1.results = .error error →
      error.isDynamic = true ∨
        ∃ point id rest op, CallReaches module depth name args machine point ∧
          point.inner.rest = id :: rest ∧ module.op? id = some op ∧
          error = .overflow id op.kind ∧ Exceeds ⟨module, id, op⟩ point.frame := by
  have sound : ∀ point, CallReaches module depth name args machine point →
      point.Sound module machine.heap.size := by
    rintro point ⟨other, body, block, fuel, known, region, listed, count, rfl, reaches⟩
    obtain rfl : other = func := Option.some.inj (known.symm.trans named)
    have entry := sound_entry typed suits region listed count machine.heap
      (machine.log.push (.interpret name args.length))
    refine sound_of_reaches typed reaches ⟨?_, ?_, lists_ops typed listed⟩
    · exact entry.enter listed (handles_typed suits region listed count machine.heap)
    · simp only [Deep, Point.entry]
      omega
  refine ⟨fun point reaches => (sound point reaches).state.respectsTypes typed, ?_⟩
  intro error failed
  have excused : error.isExcused = true := by
    have ran := runFunction_safe typed deep named suits machine.heap machine.log
    have results := failed
    rw [call_apply named] at results
    split at results
    · rename_i values last ended
      obtain ⟨scalars, good⟩ := scalarResults_ok func (ran.of_eq ended)
      rw [good] at results
      cases results
    · rename_i problem last ended
      cases results
      rw [ended] at ran
      exact ran
  cases error with
  | overflow id kind =>
      obtain ⟨point, current, rest, after, reaches, pending, alone⟩ :=
        exists_failing_of_call rfl (by simp) failed
      obtain ⟨op, found, -⟩ := (sound point reaches).listed current (by simp [pending])
      have typedFrame := (sound point reaches).state.typed
      rcases runOp_still_fails found _ _ _ alone with ⟨rfl, rfl, overflows⟩ | ⟨same, counts⟩
      · exact .inr ⟨point, id, rest, op, reaches, pending, found, rfl, .inl overflows,
          overflows.quotient_cases typed found typedFrame⟩
      · cases same
        exact .inr ⟨point, id, rest, op, reaches, pending, found, rfl, .inr counts,
          fun kind => by cases kind.symm.trans counts.1⟩
  | _ => exact .inl excused

/-! ## Instances -/

end Machine

/-- A module is well typed if its operations obey their signatures and the rest can be checked. -/
theorem Module.WellTyped.of_checks {module : Module} (assembled : module.Assembled)
    (obeys : ∀ {id : OpId} {op : Operation}, module.op? id = some op → op.Obeys module)
    (ops : ∀ position < module.ops.size, ∀ op ∈ module.op? ⟨position⟩, op.kind ≠ .call ∧
      (∀ type ∈ op.results, type.dtype.Proper) ∧ ∀ attr ∈ op.attr? "value", attr.Proper)
    (blocks : ∀ position < module.blocks.size, ∀ block ∈ module.block? ⟨position⟩,
      ∀ type ∈ block.args, type.dtype.Proper) : module.WellTyped where
  assembled := assembled
  obeys := obeys
  callFree found := (ops _ (index_lt_of_op? found) _ found).1
  literal found _ := (ops _ (index_lt_of_op? found) _ found).2.2
  proper {value type} known := by
    cases value with
    | result id position =>
        obtain ⟨op, found, known⟩ := Option.bind_eq_some_iff.mp known
        exact (ops _ (index_lt_of_op? found) op found).2.1 type (List.mem_of_getElem? known)
    | arg id position =>
        obtain ⟨block, listed, known⟩ := Option.bind_eq_some_iff.mp known
        exact blocks _ (index_lt_of_block? listed) block listed type (List.mem_of_getElem? known)

namespace Machine

/-- A function that squares the two elements of a buffer in a loop. -/
def squares : Module :=
  let element : ValueType := .scalar .int32
  let access : List (String × Attribute) := [("map", .affineMap (.identity 1))]
  let drafts : List (OpDraft × BlockId) := [
    ({ kind := .func, attributes := [("sym_name", .str "squares")],
       regions := [[.memref [2] .int32]] }, ⟨0⟩),
    ({ kind := .affineFor,
       attributes := [("lower_bound", .affineMap (.constant 0)),
        ("upper_bound", .affineMap (.constant 2)), ("step", .index 1)],
       regions := [[.scalar .index]] }, ⟨1⟩),
    ({ kind := .load, operands := [.arg ⟨1⟩ 0, .arg ⟨2⟩ 0], results := [element],
       attributes := access }, ⟨2⟩),
    ({ kind := .mulI, operands := [.result ⟨2⟩ 0, .result ⟨2⟩ 0], results := [element] }, ⟨2⟩),
    ({ kind := .store, operands := [.result ⟨3⟩ 0, .arg ⟨1⟩ 0, .arg ⟨2⟩ 0],
       attributes := access }, ⟨2⟩),
    ({ kind := .ret }, ⟨1⟩)]
  drafts.foldl (fun module draft => (module.create draft.1 (.atEnd draft.2)).2) .empty

theorem squares_obeys {id : OpId} {op : Operation} (found : squares.op? id = some op) :
    op.Obeys squares := by
  obtain ⟨index⟩ := id
  match index with
  | 0 =>
      cases found
      exact ⟨rfl, ⟨_, rfl⟩, ⟨_, rfl⟩, rfl⟩
  | 1 =>
      cases found
      exact ⟨fun operand impossible => absurd impossible List.not_mem_nil,
        ⟨_, _, rfl, rfl, False.elim⟩, ⟨_, rfl⟩, ⟨_, rfl, rfl⟩, rfl⟩
  | 2 =>
      cases found
      refine ⟨_, _, _, _, _, rfl, ⟨rfl, rfl, ?_, False.elim, False.elim⟩, rfl⟩
      intro operand listed
      cases List.mem_singleton.mp listed
      rfl
  | 3 =>
      cases found
      exact ⟨_, _, _, _, rfl, ⟨rfl, rfl, rfl, rfl, rfl⟩, rfl⟩
  | 4 =>
      cases found
      refine ⟨_, _, _, _, _, _, rfl, rfl, ⟨rfl, rfl, ?_, False.elim, False.elim⟩, rfl⟩
      intro operand listed
      cases List.mem_singleton.mp listed
      rfl
  | 5 =>
      cases found
      exact ⟨fun operand impossible => absurd impossible List.not_mem_nil, rfl⟩
  | index + 6 =>
      exact absurd (Module.index_lt_of_op? found) (by simp [squares, Module.create, Module.empty])

theorem squares_wellTyped : squares.WellTyped :=
  .of_checks
    (.create _ (.create _ (.create _ (.create _ (.create _ (.create _ .empty rfl) rfl) rfl) rfl)
      rfl) rfl)
    squares_obeys (by decide +kernel) (by decide +kernel)

/-- A buffer whose first element overflows when it is squared. -/
def squaresBuffer : Buffer := ⟨[2], .int32, #[.int 65536, .int (-7)]⟩

theorem squares_suits : squares.Suits ⟨0⟩ [squaresBuffer] where
  types {body block position type buffer} region listed expected given := by
    cases region
    cases listed
    match position with
    | 0 =>
        cases expected
        cases given
        rfl
    | position + 1 => cases given
  fits := by
    intro buffer listed scalar inside
    cases List.mem_singleton.mp listed
    simp only [squaresBuffer, List.mem_toArray, List.mem_cons, List.not_mem_nil, or_false] at inside
    rcases inside with rfl | rfl <;> exact ⟨rfl, rfl⟩

/-- The function that squares a buffer respects types. -/
theorem squares_respects_types :
    (∀ point, CallReaches squares 3 "squares" [squaresBuffer] .fresh point →
      RespectsTypes squares 0 point.frame point.machine) ∧
    ∀ error, (call squares 3 "squares" [squaresBuffer] .fresh).1.results = .error error →
      error.isDynamic = true ∨
        ∃ point id rest op, CallReaches squares 3 "squares" [squaresBuffer] .fresh point ∧
          point.inner.rest = id :: rest ∧ squares.op? id = some op ∧
          error = .overflow id op.kind ∧ Exceeds ⟨squares, id, op⟩ point.frame :=
  call_respects_types squares_wellTyped (by decide) (by decide) squares_suits .fresh

/-- A function that divides the least number, all of whose 64 bits are after the point, by minus
one. -/
def ratio : Module :=
  let constant (value : Int64) : OpDraft :=
    { kind := .constant, results := [.scalar (.fixed 64 64)],
      attributes := [("value", .int value (.fixed 64 64))] }
  let drafts : List (OpDraft × BlockId) := [
    ({ kind := .func, attributes := [("sym_name", .str "ratio")], regions := [[]] }, ⟨0⟩),
    (constant (-9223372036854775808), ⟨1⟩),
    (constant (-1), ⟨1⟩),
    ({ kind := .divFixed, operands := [.result ⟨1⟩ 0, .result ⟨2⟩ 0],
       results := [.scalar (.fixed 64 64)] }, ⟨1⟩),
    ({ kind := .ret, operands := [.result ⟨3⟩ 0] }, ⟨1⟩)]
  drafts.foldl (fun module draft => (module.create draft.1 (.atEnd draft.2)).2) .empty

theorem ratio_obeys {id : OpId} {op : Operation} (found : ratio.op? id = some op) :
    op.Obeys ratio := by
  obtain ⟨index⟩ := id
  match index with
  | 0 =>
      cases found
      exact ⟨rfl, ⟨_, rfl⟩, ⟨_, rfl⟩, rfl⟩
  | 1 | 2 =>
      cases found
      exact ⟨rfl, ⟨_, rfl⟩, _, rfl, rfl⟩
  | 3 =>
      cases found
      exact ⟨_, _, _, _, rfl, ⟨rfl, rfl, rfl, rfl, rfl⟩, rfl⟩
  | 4 =>
      cases found
      refine ⟨fun operand listed => ?_, rfl⟩
      cases List.mem_singleton.mp listed
      exact ⟨_, rfl⟩
  | index + 5 =>
      exact absurd (Module.index_lt_of_op? found) (by simp [ratio, Module.create, Module.empty])

theorem ratio_wellTyped : ratio.WellTyped :=
  .of_checks (.create _ (.create _ (.create _ (.create _ (.create _ .empty rfl) rfl) rfl) rfl) rfl)
    ratio_obeys (by decide +kernel) (by decide +kernel)

/-- A call of a well-typed module fails because its quotient leaves the registers. -/
theorem ratio_overflows :
    ratio.WellTyped ∧ ratio.function? "ratio" = some ⟨0⟩ ∧ ratio.Suits ⟨0⟩ [] ∧
      (call ratio ratio.blocks.size "ratio" [] .fresh).1.results =
        .error (.overflow ⟨3⟩ .divFixed) := by
  have suits : ratio.Suits ⟨0⟩ [] :=
    { types := fun _ _ _ given => by cases given
      fits := fun _ impossible => absurd impossible List.not_mem_nil }
  exact ⟨ratio_wellTyped, by decide, suits, rfl⟩

end Machine

end AffineKernel
