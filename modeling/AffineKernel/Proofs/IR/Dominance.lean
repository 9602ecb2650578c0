import AffineKernel.Proofs.IR.Growth

/-!
# Dominance

An operation may use the arguments of the blocks around it, and the results of
the operations that stand before it, or before an operation around it, in one of
these blocks. `Module.Visible` is this relation, and a module is *dominated* when
every operand is a buffer or visible to its operation.

While a block is being filled, what matters is what an operation listed last
would see (`Module.VisibleIn`). An operation created there sees it
(`visible_create`), and so does everything in its regions (`visibleIn_region`).
Both relations survive growth.
-/

set_option autoImplicit false

namespace AffineKernel.Module

/-- One operation of a list stands before another one. -/
def Precedes (ops : List OpId) (first second : OpId) : Prop :=
  ∃ front back, ops = front ++ second :: back ∧ first ∈ front

/-- The values that an operation may use. -/
inductive Visible (module : Module) : OpId → Value → Prop where
  /-- An argument of the block that lists the operation. -/
  | arg {id : OpId} {op : Operation} (position : Nat) :
      module.op? id = some op → Visible module id (.arg op.parent position)
  /-- A result of an operation that stands before it in its block. -/
  | result {id earlier : OpId} {op : Operation} {block : Block} (position : Nat) :
      module.op? id = some op → module.block? op.parent = some block →
      Precedes block.ops earlier id → Visible module id (.result earlier position)
  /-- What the operation that owns the block may use. -/
  | outer {id owner : OpId} {op : Operation} {block : Block} {value : Value} :
      module.op? id = some op → module.block? op.parent = some block →
      block.parent = some owner → Visible module owner value → Visible module id value

/-- A value that stands for a buffer. -/
def IsBuffer (module : Module) (value : Value) : Prop :=
  ∃ shape element, module.valueType? value = some (.memref shape element)

/-- Every operand is a buffer or visible. -/
def Dominated (module : Module) : Prop :=
  ∀ (id : OpId) (op : Operation), module.op? id = some op →
    ∀ value ∈ op.operands, module.IsBuffer value ∨ module.Visible id value

/-- The values that an operation listed last in a block may use. -/
def VisibleIn (module : Module) (block : BlockId) (value : Value) : Prop :=
  ∃ found, module.block? block = some found ∧
    ((∃ position, value = .arg block position) ∨
      (∃ earlier position, value = .result earlier position ∧ earlier ∈ found.ops) ∨
      ∃ owner, found.parent = some owner ∧ module.Visible owner value)

/-- In a dominated module every operand that is a scalar is visible. -/
theorem Dominated.visible {module : Module} (dominated : module.Dominated) {id : OpId}
    {op : Operation} (found : module.op? id = some op) {value : Value}
    (operand : value ∈ op.operands) {dtype : DType}
    (scalar : module.valueType? value = some (.scalar dtype)) : module.Visible id value := by
  rcases dominated id op found value operand with ⟨shape, element, buffer⟩ | visible
  · rw [scalar] at buffer
    cases buffer
  · exact visible

/-! ## Growth -/

section Growth

variable {receives : BlockId → Prop} {before after : Module}
  (grows : Grows receives before after)
include grows

theorem Visible.of_grows {id : OpId} {value : Value} (visible : before.Visible id value) :
    after.Visible id value := by
  induction visible with
  | arg position found => exact .arg position (grows.op? found)
  | result position found listed precedes =>
      obtain ⟨added, listed', -⟩ := grows.block? listed
      obtain ⟨front, back, split, member⟩ := precedes
      refine .result position (grows.op? found) listed' ⟨front, back ++ added, ?_, member⟩
      simp [split]
  | outer found listed owned _ ih =>
      obtain ⟨added, listed', -⟩ := grows.block? listed
      exact .outer (grows.op? found) listed' owned ih

theorem VisibleIn.of_grows {block : BlockId} {value : Value}
    (visible : before.VisibleIn block value) : after.VisibleIn block value := by
  obtain ⟨found, listed, reason⟩ := visible
  obtain ⟨added, listed', -⟩ := grows.block? listed
  refine ⟨_, listed', ?_⟩
  rcases reason with argument | ⟨earlier, position, same, member⟩ | ⟨owner, owned, outer⟩
  · exact .inl argument
  · exact .inr (.inl ⟨earlier, position, same, List.mem_append_left _ member⟩)
  · exact .inr (.inr ⟨owner, owned, outer.of_grows grows⟩)

theorem IsBuffer.of_grows {value : Value} (buffer : before.IsBuffer value) :
    after.IsBuffer value := by
  obtain ⟨shape, element, typed⟩ := buffer
  exact ⟨shape, element, grows.valueType? typed⟩

end Growth

/-! ## Creation at the end of a block -/

section Creation

variable {module : Module} {draft : OpDraft} {point : InsertionPoint} {found : Block}
  (listed : module.block? point.block = some found) (atEnd : point.before = none)
include listed atEnd

/-- An operation created at the end of a block sees what is visible there. -/
theorem visible_create {value : Value} (visible : module.VisibleIn point.block value) :
    (module.create draft point).2.Visible ⟨module.ops.size⟩ value := by
  have grown : Grows (· = point.block) module (module.create draft point).2 :=
    grows_create atEnd
  have placed : (module.create draft point).2.block? point.block = _ :=
    block?_create_atEnd listed atEnd
  obtain ⟨same, again, reason⟩ := visible
  obtain rfl : found = same := Option.some.inj (listed.symm.trans again)
  rcases reason with ⟨position, rfl⟩ | ⟨earlier, position, rfl, member⟩ | ⟨owner, owned, outer⟩
  · exact .arg position op?_create_self
  · exact .result position op?_create_self placed ⟨found.ops, [], rfl, member⟩
  · exact .outer op?_create_self placed owned (outer.of_grows grown)

/-- The region of an operation created at the end of a block sees what is visible there. -/
theorem visibleIn_region {args : List ValueType} {rest : List (List ValueType)}
    (regions : draft.regions = args :: rest) {value : Value}
    (visible : module.VisibleIn point.block value) :
    (module.create draft point).2.VisibleIn ⟨module.blocks.size⟩ value :=
  ⟨_, block?_create_region listed regions,
    .inr (.inr ⟨_, rfl, visible_create listed atEnd visible⟩)⟩

/-- The results of an operation created at the end of a block are visible there. -/
theorem visibleIn_result (position : Nat) :
    (module.create draft point).2.VisibleIn point.block (.result ⟨module.ops.size⟩ position) :=
  ⟨_, block?_create_atEnd listed atEnd, .inr (.inl ⟨_, position, rfl, by simp⟩)⟩

/-- A module stays dominated when an operation over visible values is created. -/
theorem Dominated.create (dominated : module.Dominated)
    (operands : ∀ value ∈ draft.operands,
      module.IsBuffer value ∨ module.VisibleIn point.block value) :
    (module.create draft point).2.Dominated := by
  have grown : Grows (· = point.block) module (module.create draft point).2 :=
    grows_create atEnd
  intro id op created value operand
  rcases op?_of_op?_create created with rfl | old
  · rw [op?_create_self] at created
    obtain rfl := Option.some.inj created
    rcases operands value operand with buffer | visible
    · exact .inl (buffer.of_grows grown)
    · exact .inr (visible_create listed atEnd visible)
  · rcases dominated id op old value operand with buffer | visible
    · exact .inl (buffer.of_grows grown)
    · exact .inr (visible.of_grows grown)

end Creation

end AffineKernel.Module
