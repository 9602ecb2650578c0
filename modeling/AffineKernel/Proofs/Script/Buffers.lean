import AffineKernel.Proofs.Script.Dominance
import AffineKernel.Proofs.Script.Typing
import AffineKernel.Proofs.Semantics.Definedness

/-!
# Where buffers come from

Every buffer that an operation uses was there before the operation: it was
allocated, or it is a parameter of a function that was begun before
(`Module.Supplies`). Unlike the bindings of nodes, though, the storage of a tensor
outlives the region in which the tensor was allocated, so a buffer can be used
where it is not visible (`Program.leakedBuffer`).

That is the only way. A program that leaves insertion points to its regions fills
its module in preorder, so a buffer is visible to all its uses inside the block
that defines it, at any depth, and to no others
(`Program.buffer_visible_iff_around`).
-/

set_option autoImplicit false

namespace AffineKernel

theorem OpKind.eq_of_opensRegion {kind : OpKind} (opens : kind.opensRegion = true) :
    kind = .func ∨ kind = .affineFor ∨ kind = .affineIf := by
  cases kind <;> simp [opensRegion] at opens ⊢

theorem OpKind.eq_alloc_of_signature {kind : OpKind} (sort : kind.signature = .alloc) :
    kind = .alloc := by
  cases kind <;> simp [signature] at sort ⊢

namespace Operation

variable {module : Module} {op : Operation} {shape : List Nat} {dtype : DType}

/-- Only allocations have buffers as results. -/
theorem ObeysExactly.alloc_of_memref (obeys : op.ObeysExactly module) {position : Nat}
    (typed : op.results[position]? = some (.memref shape dtype)) :
    op.kind = .alloc ∧ position = 0 ∧ op.results = [.memref shape dtype] := by
  have small := (List.getElem?_eq_some_iff.mp typed).1
  have one := obeys.results_length_le
  obtain rfl : position = 0 := by omega
  obtain ⟨first, results⟩ : ∃ first, op.results = [first] :=
    List.length_eq_one_iff.mp (by omega)
  obtain rfl : first = .memref shape dtype := by simpa [results] using typed
  refine ⟨?_, rfl, results⟩
  have admits : op.Admits True module op.kind.signature := obeys
  have sort : op.kind.signature = .alloc := by
    cases sort : op.kind.signature <;> simp [sort, Admits, results] at admits ⊢
  exact OpKind.eq_alloc_of_signature sort

end Operation

namespace Module

/-- A buffer was allocated by an operation before another one, or it is a parameter of a function
that was begun before. -/
def Supplies (module : Module) (id : OpId) (value : Value) (buffer : ValueType) : Prop :=
  (∃ earlier alloc, value = .result earlier 0 ∧ module.op? earlier = some alloc ∧
    alloc.kind = .alloc ∧ alloc.results = [buffer] ∧ earlier.index < id.index) ∨
  ∃ func function body block position, value = .arg body position ∧
    module.op? func = some function ∧ function.kind = .func ∧ body ∈ function.regions ∧
    module.block? body = some block ∧ block.args[position]? = some buffer ∧
    func.index < id.index

/-- What encloses a block has regions. -/
theorem Encloses.exists_regions {module : Module} {outer : OpId} {block : BlockId}
    (encloses : module.Encloses outer block) :
    ∃ op, module.op? outer = some op ∧ op.regions ≠ [] := by
  induction encloses with
  | region there member => exact ⟨_, there, List.ne_nil_of_mem member⟩
  | inner _ _ _ ih => exact ih

/-- Nothing is inside of an allocation. -/
theorem Regular.not_holds_alloc {module : Module} {epoch : Epoch} (regular : module.Regular epoch)
    {id : OpId} {op : Operation} (there : module.op? id = some op) (kind : op.kind = .alloc)
    (inner : OpId) : ¬ module.Holds id inner := by
  rintro ⟨_, -, encloses⟩
  obtain ⟨same, there', regions⟩ := encloses.exists_regions
  obtain rfl := Option.some.inj (there.symm.trans there')
  have opens := regular.opens there regions
  rw [kind] at opens
  cases opens

end Module

namespace Program

/-- The module of a program is regular at every moment. -/
theorem regular_of_passes (program : Program) {moment : Session}
    (passes : Session.Passes program.body (program.session .fresh) moment) :
    ∃ epoch, moment.context.module.Regular epoch := by
  have traced := passes.traced (fun _ _ _ => trivial) (program.session_traced fun _ _ => True)
  obtain ⟨pool, -, within⟩ := traced.within
  exact ⟨_, within.upholds.regular⟩

/-- A buffer that an operation uses was made before the operation. -/
theorem buffer_supplied (program : Program) {moment : Session}
    (passes : Session.Passes program.body (program.session .fresh) moment) {id : OpId}
    {op : Operation} (found : moment.context.module.op? id = some op) {value : Value}
    (operand : value ∈ op.operands) {shape : List Nat} {dtype : DType}
    (buffer : moment.context.module.valueType? value = some (.memref shape dtype)) :
    moment.context.module.Supplies id value (.memref shape dtype) := by
  obtain ⟨epoch, regular⟩ := program.regular_of_passes passes
  have prior := regular.prior found value operand
  cases value with
  | result earlier position =>
      obtain ⟨alloc, there, typed⟩ := Option.bind_eq_some_iff.mp buffer
      obtain ⟨kind, rfl, results⟩ := (regular.obeys there).alloc_of_memref typed
      exact .inl ⟨earlier, alloc, rfl, there, kind, results, prior⟩
  | arg body position =>
      obtain ⟨block, listed, typed⟩ := Option.bind_eq_some_iff.mp buffer
      obtain ⟨block', owner, listed', owned, before⟩ := prior
      obtain rfl := Option.some.inj (listed.symm.trans listed')
      have args : block.args ≠ [] := by
        rintro none
        rw [none] at typed
        cases typed
      obtain ⟨owner', function, owned', there, region⟩ := regular.owned body block listed args
      obtain rfl := Option.some.inj (owned.symm.trans owned')
      refine .inr ⟨owner, function, body, block, position, rfl, there, ?_, region, listed, typed,
        before⟩
      -- The regions of loops and conditionals have no buffers as arguments.
      have obeys : function.Admits True moment.context.module function.kind.signature :=
        regular.obeys there
      have opens := regular.opens there (List.ne_nil_of_mem region)
      rcases OpKind.eq_of_opensRegion opens with kind | kind | kind
      · exact kind
      · rw [kind] at obeys
        obtain ⟨-, -, -, ⟨only, regions, typedArgs⟩, -⟩ := obeys
        obtain rfl : body = only := by simpa [regions] using region
        have same : block.args = [.scalar .index] := by simpa [listed] using typedArgs
        rw [same] at typed
        cases position <;> cases typed
      · rw [kind] at obeys
        obtain ⟨-, -, typedArgs, -⟩ := obeys
        have same : block.args = [] := by simpa [listed] using typedArgs body region
        exact absurd same args

/-- **Buffers are visible inside their blocks, and nowhere else.** At every moment of a program that
starts from an empty module and leaves insertion points to functions, loops, conditionals and
reductions, a buffer that an operation uses was made before the operation, and it is visible to the
operation exactly if the block that defines it is around the operation. -/
theorem buffer_visible_iff_around (program : Program)
    (unsteered : allUnsteered program.body = true) {moment : Session}
    (passes : Session.Passes program.body (program.session .fresh) moment) {id : OpId}
    {op : Operation} (found : moment.context.module.op? id = some op) {value : Value}
    (operand : value ∈ op.operands) {shape : List Nat} {dtype : DType}
    (buffer : moment.context.module.valueType? value = some (.memref shape dtype)) :
    moment.context.module.Supplies id value (.memref shape dtype) ∧
      (moment.context.module.Visible id value ↔
        ∃ home, moment.context.module.home? value = some home ∧
          moment.context.module.Around id home) := by
  have lawful := passes.lawful unsteered (Context.start_lawful _ _)
  have chronological := lawful.chronological
  have supplied := buffer_supplied program passes found operand buffer
  refine ⟨supplied, fun visible => visible.home chronological.toForest, ?_⟩
  rintro ⟨home, defined, around⟩
  rcases supplied with ⟨earlier, alloc, rfl, there, kind, -, before⟩ |
    ⟨func, function, body, block, position, rfl, -⟩
  · obtain rfl : alloc.parent = home := by simpa [Module.home?, there] using defined
    obtain ⟨epoch, regular⟩ := program.regular_of_passes passes
    exact lawful.preordered.visible_result chronological there around before
      (regular.not_holds_alloc there kind id) 0
  · obtain rfl : body = home := Option.some.inj defined
    exact Module.visible_arg chronological.toForest around position

/-- A tensor that is allocated in the body of a loop, and loaded from after the loop. -/
def leakyFunction : Statement :=
  .function ⟨some "f", false⟩ "f" [] none
    [.loop ⟨none, false⟩ (some "i") (.const 0) (.const 0) ⟨1, none, none, false⟩
        [.command ⟨some "t", false⟩ (.alloc "t" [1] .int32)],
      .command ⟨some "x", false⟩ (.make (.load "t" [.const 0])),
      .command ⟨none, true⟩ (.build "x")]

/-- The program of this function. -/
def leakedBuffer : Program where
  mode := some .deferred
  setting := none
  setup := []
  body := [leakyFunction]

/-- The session after the program. -/
def leakedBufferEnd : Session :=
  (Session.runStatement leakyFunction (leakedBuffer.session .fresh)).2

theorem leakedBuffer_passes :
    Session.Passes leakedBuffer.body (leakedBuffer.session .fresh) leakedBufferEnd :=
  .later .here

/-- The load stands after the loop in the body of the function, and uses the buffer. -/
theorem leakedBuffer_used :
    (leakedBufferEnd.context.module.op? ⟨4⟩).any (.result ⟨2⟩ 0 ∈ ·.operands) = true ∧
      leakedBufferEnd.context.module.valueType? (.result ⟨2⟩ 0) = some (.memref [1] .int32) ∧
      (leakedBufferEnd.context.module.op? ⟨4⟩).map (·.parent) = some ⟨1⟩ ∧
      (leakedBufferEnd.context.module.block? ⟨1⟩).map (fun block => (block.ops, block.parent)) =
        some ([⟨1⟩, ⟨4⟩, ⟨5⟩], some ⟨0⟩) ∧
      (Machine.call leakedBufferEnd.context.module 3 "f" [] .fresh).1.failure? =
        some (.undefinedValue (.result ⟨2⟩ 0)) := by
  decide +kernel

/-- The load after the loop uses the buffer that is defined in the loop, and a run of the function
fails. -/
theorem leakedBuffer_not_visible :
    allUnsteered leakedBuffer.body = true ∧
      Session.Passes leakedBuffer.body (leakedBuffer.session .fresh) leakedBufferEnd ∧
      (leakedBufferEnd.context.module.op? ⟨4⟩).any (.result ⟨2⟩ 0 ∈ ·.operands) = true ∧
      leakedBufferEnd.context.module.valueType? (.result ⟨2⟩ 0) = some (.memref [1] .int32) ∧
      ¬ leakedBufferEnd.context.module.Visible ⟨4⟩ (.result ⟨2⟩ 0) ∧
      (Machine.call leakedBufferEnd.context.module 3 "f" [] .fresh).1.failure? =
        some (.undefinedValue (.result ⟨2⟩ 0)) := by
  obtain ⟨used, memref, around, listed, fails⟩ := leakedBuffer_used
  refine ⟨by decide, leakedBuffer_passes, used, memref, ?_, fails⟩
  have lawful := leakedBuffer_passes.lawful (by decide) (Context.start_lawful _ _)
  have placed : ∀ {op : Operation} {block : Block},
      leakedBufferEnd.context.module.op? ⟨4⟩ = some op →
      leakedBufferEnd.context.module.block? op.parent = some block →
      block.ops = [⟨1⟩, ⟨4⟩, ⟨5⟩] ∧ block.parent = some ⟨0⟩ := by
    intro op block there known
    have parent : op.parent = ⟨1⟩ := by simpa [there] using around
    rw [parent] at known
    simpa [known] using listed
  intro visible
  cases visible with
  | result position there known precedes =>
      obtain ⟨front, back, split, member⟩ := precedes
      rw [(placed there known).1] at split
      have inside : (⟨2⟩ : OpId) ∈ [⟨1⟩, ⟨4⟩, (⟨5⟩ : OpId)] :=
        split ▸ List.mem_append_left _ member
      exact absurd inside (by decide)
  | outer there known owned visible =>
      obtain rfl := Option.some.inj (owned.symm.trans (placed there known).2)
      obtain ⟨function, begun, -⟩ := lawful.chronological.owner known owned
      have older := visible.older lawful.chronological begun (Nat.le_refl _) (Nat.lt_succ_self _)
      exact absurd older (Nat.not_lt_zero 2)

/-- What is true of the buffer: it was made before the load, and the loop is not around the load. -/
theorem leakedBuffer_supplied :
    leakedBufferEnd.context.module.Supplies ⟨4⟩ (.result ⟨2⟩ 0) (.memref [1] .int32) ∧
      (leakedBufferEnd.context.module.Visible ⟨4⟩ (.result ⟨2⟩ 0) ↔
        ∃ home, leakedBufferEnd.context.module.home? (.result ⟨2⟩ 0) = some home ∧
          leakedBufferEnd.context.module.Around ⟨4⟩ home) := by
  obtain ⟨used, memref, -⟩ := leakedBuffer_used
  obtain ⟨op, found, operand⟩ := (Option.any_eq_true ..).mp used
  exact buffer_visible_iff_around leakedBuffer (by decide) leakedBuffer_passes found
    (of_decide_eq_true operand) memref

end Program

end AffineKernel
