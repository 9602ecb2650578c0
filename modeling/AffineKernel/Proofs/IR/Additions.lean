import AffineKernel.Proofs.IR.Signature

/-!
# Operations that were added to a block

Operations are numbered in the order of their creation, and an operation is
created for one block. So what was added to a block while a module grew can be
read off the numbers (`Module.added`), and it can be read off step by step
(`Module.added_append`).

As long as operations are created at one insertion point, only its block
receives some, and they are listed in the order of their creation where the
insertion point is (`Module.Fills`).
-/

set_option autoImplicit false

namespace AffineKernel.Module

/-- The operations that were added to a block, in the order of creation. -/
def added (before after : Module) (block : BlockId) : List OpId :=
  ((List.range' before.size (after.size - before.size)).map OpId.mk).filter fun id =>
    (after.op? id).any fun op => op.parent = block

variable {before middle after : Module} {block : BlockId}

/-- An operation that was added is new. -/
theorem index_le_of_mem_added {id : OpId} (member : id ∈ before.added after block) :
    before.size ≤ id.index := by
  obtain ⟨index, inside, rfl⟩ := List.mem_map.mp (List.mem_filter.mp member).1
  exact (List.mem_range'_1.mp inside).1

theorem added_self (module : Module) (block : BlockId) : module.added module block = [] := by
  simp [added]

/-- There are not less operations than before. -/
theorem Retains.size_le (retains : before.Retains after) : before.size ≤ after.size := by
  cases count : before.size with
  | zero => exact Nat.zero_le _
  | succ last =>
      have small : last < before.ops.size := by
        rw [← Module.size, count]
        exact Nat.lt_succ_self last
      have found : before.op? ⟨last⟩ = some before.ops[last] := Array.getElem?_eq_getElem small
      exact index_lt_of_op? (retains.op? found)

/-- What was added first comes first. -/
theorem added_append (first : before.Retains middle) (second : middle.Retains after) :
    before.added after block = before.added middle block ++ middle.added after block := by
  have grown := first.size_le
  have further := second.size_le
  have split : List.range' before.size (after.size - before.size) =
      List.range' before.size (middle.size - before.size) ++
        List.range' middle.size (after.size - middle.size) := by
    have joined : List.range' before.size (middle.size - before.size) ++
        List.range' (before.size + (middle.size - before.size)) (after.size - middle.size) = _ :=
      List.range'_append_1
    rw [Nat.add_sub_cancel' grown] at joined
    rw [joined]
    congr 1
    omega
  rw [added, split, List.map_append, List.filter_append]
  congr 1
  apply List.filter_congr
  intro id member
  obtain ⟨index, inside, rfl⟩ := List.mem_map.mp member
  have small : index < middle.ops.size := by
    have bound := (List.mem_range'_1.mp inside).2
    rw [Nat.add_sub_cancel' grown] at bound
    exact bound
  have found : middle.op? ⟨index⟩ = some middle.ops[index] := Array.getElem?_eq_getElem small
  rw [found, second.op? found]

/-- A creation adds an operation to the block of its insertion point. -/
theorem added_create (module : Module) (draft : OpDraft) (point : InsertionPoint) :
    module.added (module.create draft point).2 point.block = [⟨module.size⟩] := by
  have one : (module.create draft point).2.size - module.size = 1 := by
    have size : (module.create draft point).2.size = module.size + 1 := ops_size_create
    omega
  have found : (module.create draft point).2.op? ⟨module.size⟩ = _ := op?_create_self
  simp [added, one, found]

/-- A creation adds nothing to the other blocks. -/
theorem added_create_of_ne (module : Module) (draft : OpDraft) {point : InsertionPoint}
    (other : block ≠ point.block) : module.added (module.create draft point).2 block = [] := by
  have one : (module.create draft point).2.size - module.size = 1 := by
    have size : (module.create draft point).2.size = module.size + 1 := ops_size_create
    omega
  have found : (module.create draft point).2.op? ⟨module.size⟩ = _ := op?_create_self
  simp [added, one, found, Ne.symm other]

/-! ## One insertion point -/

/-- Among the blocks that are there, only the one of an insertion point has received operations, and
they are listed there one after the other. -/
structure Fills (point : Option InsertionPoint) (before after : Module) : Prop where
  retains : before.Retains after
  listed : ∀ {block : BlockId} {found : Block}, before.block? block = some found →
    after.block? block = some { found with
      ops := (before.added after block).foldl
        (fun listed id => place id (point.bind InsertionPoint.before) listed) found.ops }
  quiet : ∀ {block : BlockId}, block.index < before.blocks.size →
    point.map InsertionPoint.block ≠ some block → before.added after block = []

namespace Fills

variable {point next : Option InsertionPoint}

theorem refl (point : Option InsertionPoint) (module : Module) : Fills point module module where
  retains := .refl module
  listed {block found} known := by
    rw [added_self]
    exact known
  quiet _ _ := added_self _ _

/-- The insertion point may change to one in a block that was not there before. -/
theorem trans (first : Fills point before middle) (second : Fills next middle after)
    (known : ∀ block : BlockId, block.index < before.blocks.size →
      next.map InsertionPoint.block = some block → next = point) : Fills point before after where
  retains := first.retains.trans second.retains
  listed {block found} old := by
    have there := first.listed old
    have later := second.listed there
    rw [added_append first.retains second.retains, List.foldl_append]
    by_cases current : next.map InsertionPoint.block = some block
    · rw [known block (index_lt_of_block? old) current] at later
      exact later
    · rw [second.quiet (index_lt_of_block? there) current] at later ⊢
      exact later
  quiet {block} old other := by
    have still : next.map InsertionPoint.block ≠ some block := by
      intro current
      rw [known block old current] at current
      exact other current
    have there : block.index < middle.blocks.size := by
      have found : before.block? block = some before.blocks[block.index] :=
        Array.getElem?_eq_getElem old
      exact index_lt_of_block? (first.listed found)
    rw [added_append first.retains second.retains, first.quiet old other,
      second.quiet there still]
    rfl

/-- A creation at the insertion point. -/
theorem create (module : Module) (draft : OpDraft) (point : InsertionPoint) :
    Fills (some point) module (module.create draft point).2 where
  retains := .create module draft point
  listed {block found} old := by
    by_cases same : block = point.block
    · subst same
      rw [added_create, block?_create_self old]
      rfl
    · rw [added_create_of_ne module draft same, block?_create_of_ne same old]
      rfl
  quiet {block} _ other := added_create_of_ne module draft fun same => other (by simp [same])

end Fills

end AffineKernel.Module
