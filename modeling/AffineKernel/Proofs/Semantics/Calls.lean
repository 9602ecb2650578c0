import AffineKernel.Proofs.IR.Nesting
import AffineKernel.Proofs.Semantics.Activations
import Mathlib.Data.Finset.Card

/-!
# The call graph

Which blocks can a run enter from a block? The regions of the operations that
the block lists, and the bodies of the functions that they call. A region is
deeper in the same function, and a call leads to a function of the call graph,
whose edges are the calls in the body tree of a function, without the functions
that are nested in it (`Module.Calls`). Each block is in the body tree of one
function at most (`Module.Within.unique`).

So without recursion no block is entered below itself, and what can be entered
below an inner block is strictly less than what can be entered below the outer
one (`Module.height_lt`). The number of these blocks is the height of a block; it
is less than the number of blocks (`Module.height_lt_size`).
-/

set_option autoImplicit false

namespace AffineKernel

namespace Module

/-- A block in the body tree of a function: its body, or a region of an operation in the tree that
is no function. -/
inductive Within (module : Module) (func : OpId) : BlockId → Prop where
  | body {op : Operation} {block : BlockId} :
      module.op? func = some op → op.kind = .func → module.region? func 0 = some block →
      Within module func block
  | nested {outer inner : BlockId} {block : Block} {id : OpId} {op : Operation} :
      Within module func outer → module.block? outer = some block → id ∈ block.ops →
      module.op? id = some op → op.kind ≠ .func → inner ∈ op.regions → Within module func inner

/-- In the body tree of a function another one is called. -/
def Calls (module : Module) (caller callee : OpId) : Prop :=
  ∃ outer block id op name, module.Within caller outer ∧ module.block? outer = some block ∧
    id ∈ block.ops ∧ module.op? id = some op ∧ op.kind = .call ∧ op.callee? = some name ∧
    module.function? name = some callee

/-- No function calls itself, directly or through others. -/
def Acyclic (module : Module) : Prop := ∀ func, ¬ Relation.TransGen module.Calls func func

/-- A block that is executed for an operation: a region of it, or the body of the function that it
calls. -/
def Opens (module : Module) (op : Operation) (inner : BlockId) : Prop :=
  op.kind ≠ .func ∧ inner ∈ op.regions ∨
    ∃ name callee, op.kind = .call ∧ op.callee? = some name ∧
      module.function? name = some callee ∧ module.region? callee 0 = some inner

/-- A block that is executed for an operation that another block lists. -/
def Enters (module : Module) (outer inner : BlockId) : Prop :=
  ∃ block id op, module.block? outer = some block ∧ id ∈ block.ops ∧ module.op? id = some op ∧
    module.Opens op inner

section Forests

variable {module : Module} {func other : OpId} {outer inner : BlockId}

theorem mem_regions_of_region? {op : Operation} {position : Nat} (found : module.op? func = some op)
    (region : module.region? func position = some inner) : inner ∈ op.regions := by
  simp only [region?, found, Option.bind_eq_bind, Option.bind_some] at region
  exact List.mem_of_getElem? region

/-- A region of an operation is a block. -/
theorem Forest.exists_of_region? (forest : module.Forest) {position : Nat}
    (region : module.region? func position = some inner) :
    ∃ block, module.block? inner = some block := by
  cases found : module.op? func with
  | none => simp [region?, found] at region
  | some op =>
      obtain ⟨-, block, known, -⟩ := forest.region found _ (mem_regions_of_region? found region)
      exact ⟨block, known⟩

/-- **One function for a block.** -/
theorem Within.unique (forest : module.Forest) (within : module.Within func inner)
    (again : module.Within other inner) : func = other := by
  induction within generalizing other with
  | body found kind region =>
      have member := mem_regions_of_region? found region
      cases again with
      | body found' kind' region' =>
          exact forest.region_unique found member found' (mem_regions_of_region? found' region')
      | nested _ _ _ found' kind' member' =>
          obtain rfl := forest.region_unique found member found' member'
          cases found.symm.trans found'
          exact absurd kind kind'
  | nested _ listed inside found kind member ih =>
      cases again with
      | body found' kind' region' =>
          obtain rfl :=
            forest.region_unique found member found' (mem_regions_of_region? found' region')
          cases found.symm.trans found'
          exact absurd kind' kind
      | nested within' listed' inside' found' kind' member' =>
          obtain rfl := forest.region_unique found member found' member'
          obtain ⟨_, there, rfl⟩ := forest.listed listed _ inside
          obtain ⟨_, there', rfl⟩ := forest.listed listed' _ inside'
          cases there.symm.trans there'
          exact ih within'

theorem Within.exists_block (forest : module.Forest) (within : module.Within func inner) :
    ∃ block, module.block? inner = some block := by
  cases within with
  | body _ _ region => exact forest.exists_of_region? region
  | nested _ _ _ found _ member =>
      obtain ⟨-, block, known, -⟩ := forest.region found _ member
      exact ⟨block, known⟩

theorem Within.index_lt (forest : module.Forest) (within : module.Within func inner) :
    inner.index < module.blocks.size := by
  obtain ⟨block, known⟩ := within.exists_block forest
  exact index_lt_of_block? known

/-- What is listed in the body tree of a function is numbered after the function. -/
theorem Within.lt_of_mem (numbered : module.Numbered) (within : module.Within func inner)
    {block : Block} (listed : module.block? inner = some block) {id : OpId}
    (inside : id ∈ block.ops) : func.index < id.index := by
  induction within generalizing block id with
  | body found _ region =>
      obtain ⟨-, block', known, owned⟩ :=
        numbered.region found _ (mem_regions_of_region? found region)
      cases known.symm.trans listed
      exact numbered.inner listed owned id inside
  | nested _ around within found _ member ih =>
      obtain ⟨-, block', known, owned⟩ := numbered.region found _ member
      cases known.symm.trans listed
      exact Nat.lt_trans (ih around within) (numbered.inner listed owned id inside)

/-- There is no recursion if every call is numbered before the function that it calls. -/
theorem Numbered.acyclic (numbered : module.Numbered)
    (forward : ∀ position < module.ops.size, ∀ op ∈ module.op? ⟨position⟩, op.kind = .call →
      ∀ name ∈ op.callee?, ∀ callee ∈ module.function? name, position < callee.index) :
    module.Acyclic := by
  have step : ∀ caller callee, module.Calls caller callee → caller.index < callee.index := by
    rintro caller callee ⟨outer, block, id, op, name, within, listed, inside, found, kind, known,
      target⟩
    exact Nat.lt_trans (within.lt_of_mem numbered listed inside)
      (forward id.index (index_lt_of_op? found) op found kind name known callee target)
  have path : ∀ caller callee, Relation.TransGen module.Calls caller callee →
      caller.index < callee.index := by
    intro caller callee calls
    induction calls with
    | single call => exact step _ _ call
    | tail _ call ih => exact Nat.lt_trans ih (step _ _ call)
  exact fun func calls => Nat.lt_irrefl _ (path func func calls)

/-- What is entered is deeper in the same function, or in a function that is called. -/
theorem Within.enters (forest : module.Forest) (within : module.Within func outer)
    (enters : module.Enters outer inner) :
    ∃ callee, module.Within callee inner ∧
      (callee = func ∧ outer.index < inner.index ∨ module.Calls func callee) := by
  obtain ⟨block, id, op, listed, inside, found, ⟨kind, member⟩ | called⟩ := enters
  · obtain ⟨_, there, rfl⟩ := forest.listed listed id inside
    cases there.symm.trans found
    exact ⟨func, .nested within listed inside found kind member,
      .inl ⟨rfl, (forest.region found inner member).1⟩⟩
  · obtain ⟨name, callee, kind, known, target, region⟩ := called
    obtain ⟨funcOp, there, funcKind⟩ := exists_of_function? target
    exact ⟨callee, .body there funcKind region,
      .inr ⟨outer, block, id, op, name, within, listed, inside, found, kind, known, target⟩⟩

/-- So is what is entered below it. -/
theorem Within.enters_below (forest : module.Forest) (within : module.Within func outer)
    (below : Relation.TransGen module.Enters outer inner) :
    ∃ callee, module.Within callee inner ∧
      (callee = func ∧ outer.index < inner.index ∨
        Relation.TransGen module.Calls func callee) := by
  induction below with
  | single enters =>
      obtain ⟨callee, inside, deeper | calls⟩ := within.enters forest enters
      · exact ⟨callee, inside, .inl deeper⟩
      · exact ⟨callee, inside, .inr (.single calls)⟩
  | tail _ enters ih =>
      obtain ⟨middle, inside, path⟩ := ih
      obtain ⟨callee, last, step⟩ := inside.enters forest enters
      refine ⟨callee, last, ?_⟩
      rcases path with ⟨rfl, deeper⟩ | path
      · rcases step with ⟨rfl, further⟩ | calls
        · exact .inl ⟨rfl, Nat.lt_trans deeper further⟩
        · exact .inr (.single calls)
      · rcases step with ⟨rfl, -⟩ | calls
        · exact .inr path
        · exact .inr (path.tail calls)

/-- Without recursion no block is entered below itself. -/
theorem Within.not_below_self (forest : module.Forest) (acyclic : module.Acyclic)
    (within : module.Within func outer) : ¬ Relation.TransGen module.Enters outer outer := by
  intro below
  obtain ⟨callee, again, ⟨-, deeper⟩ | path⟩ := within.enters_below forest below
  · exact Nat.lt_irrefl _ deeper
  · exact acyclic func (within.unique forest again ▸ path)

end Forests

/-! ## Heights -/

open Classical in
/-- The blocks that can be entered below a block. -/
noncomputable def below (module : Module) (block : BlockId) : Finset Nat :=
  (Finset.range module.blocks.size).filter fun index =>
    Relation.TransGen module.Enters block ⟨index⟩

/-- The number of blocks that can be entered below a block. -/
noncomputable def height (module : Module) (block : BlockId) : Nat := (module.below block).card

theorem mem_below {module : Module} {block : BlockId} {index : Nat} :
    index ∈ module.below block ↔
      index < module.blocks.size ∧ Relation.TransGen module.Enters block ⟨index⟩ := by
  classical
  simp [below]

section Heights

variable {module : Module} {func : OpId} {outer inner : BlockId} (forest : module.Forest)
  (acyclic : module.Acyclic) (within : module.Within func outer)
include forest acyclic within

/-- Less can be entered below an inner block. -/
theorem height_lt (enters : module.Enters outer inner) :
    module.height inner < module.height outer := by
  obtain ⟨callee, inside, -⟩ := within.enters forest enters
  refine Finset.card_lt_card ⟨fun index member => ?_, fun same => ?_⟩
  · obtain ⟨small, path⟩ := mem_below.mp member
    exact mem_below.mpr ⟨small, .head enters path⟩
  · have member : inner.index ∈ module.below outer :=
      mem_below.mpr ⟨inside.index_lt forest, .single enters⟩
    exact inside.not_below_self forest acyclic (mem_below.mp (same member)).2

/-- Not all blocks can be entered below a block. -/
theorem height_lt_size : module.height outer < module.blocks.size := by
  have missing : module.below outer ⊂ Finset.range module.blocks.size := by
    refine ⟨fun index member => Finset.mem_range.mpr (mem_below.mp member).1, fun same => ?_⟩
    have member : outer.index ∈ module.below outer :=
      same (Finset.mem_range.mpr (within.index_lt forest))
    exact within.not_below_self forest acyclic (mem_below.mp member).2
  simpa [height] using Finset.card_lt_card missing

end Heights

end Module

end AffineKernel
