import AffineKernel.Proofs.IR.Enclosure

/-!
# The order of nested operations

A module is in *preorder* when all that an operation encloses was made before
anything that stands after the operation in its block (`Module.Preordered`).
A module that is being filled stays so as long as operations are created in
*open* blocks, those whose enclosing operations have nothing after them
(`Preordered.create`). The region of a new operation is open (`open_region`), and
a block of a lower number, such as one around it, stays open (`Open.create`).

In preorder, what was made before an operation is visible to it if it is defined
in a block around the operation, except for the results of the operations around
(`Preordered.visible_result`). So a value that is made before its use fails to be
visible only where its block is not around the use.
-/

set_option autoImplicit false

namespace AffineKernel.Module

/-- What an operation encloses was made before the operations after it in its block. -/
def Preordered (module : Module) : Prop :=
  ∀ (first later id : OpId) (op next : Operation), module.op? first = some op →
    module.op? later = some next → op.parent = next.parent → first.index < later.index →
    module.Holds first id → id.index < later.index

/-- Nothing stands after the operations that enclose a block. -/
def Open (module : Module) (block : BlockId) : Prop :=
  ∀ (outer later : OpId) (op next : Operation), module.op? outer = some op →
    module.op? later = some next → op.parent = next.parent → module.Encloses outer block →
    later.index ≤ outer.index

/-- The blocks around an operation: its own, and those of the operations that enclose it. -/
def Around (module : Module) (id : OpId) (block : BlockId) : Prop :=
  ∃ op, module.op? id = some op ∧ (op.parent = block ∨
    ∃ outer around, module.op? outer = some around ∧ around.parent = block ∧
      module.Encloses outer op.parent)

theorem preordered_empty : empty.Preordered := by
  intro first later id op next there
  simp [op?, empty] at there

theorem open_empty (block : BlockId) : empty.Open block := by
  intro outer later op next there
  simp [op?, empty] at there

/-! ## Creation at the end of a block -/

section Creation

variable {module : Module} {draft : OpDraft} {point : InsertionPoint}
  (chronological : module.Chronological)
include chronological

/-- What encloses an old block enclosed it before. -/
theorem Encloses.of_create {outer : OpId} {block : BlockId}
    (encloses : (module.create draft point).2.Encloses outer block) {old : Block}
    (known : module.block? block = some old) : module.Encloses outer block := by
  have older {id : OpId} {op : Operation} {region : BlockId} {found : Block}
      (there : (module.create draft point).2.op? id = some op) (member : region ∈ op.regions)
      (listed : module.block? region = some found) : module.op? id = some op := by
    rcases op?_of_op?_create there with rfl | old
    · rw [(op?_create_new (Nat.le_refl _) there).2] at member
      exact absurd (index_lt_of_block? listed) (Nat.not_lt.mpr (mem_freshBlocks.mp member).1)
    · exact old
  induction encloses generalizing old with
  | region there member => exact .region (older there member known) member
  | inner _ there member ih =>
      have was := older there member known
      obtain ⟨around, listed, -⟩ := chronological.placed was
      exact .inner (ih listed) was member

variable {found : Block} (listed : module.block? point.block = some found)
include listed

/-- Nothing that stands beside a new operation encloses a block of a lower number. -/
theorem not_encloses_create {outer : OpId} {op : Operation} {block : BlockId}
    (there : (module.create draft point).2.op? outer = some op) (beside : op.parent = point.block)
    (small : block.index ≤ point.block.index) :
    ¬ (module.create draft point).2.Encloses outer block := by
  intro encloses
  have after := encloses.after (chronological.toForest.create listed) there
  rw [beside] at after
  exact Nat.lt_irrefl _ (Nat.lt_of_lt_of_le after small)

/-- A module stays in preorder when an operation is created in an open block. -/
theorem Preordered.create (preordered : module.Preordered) (opened : module.Open point.block) :
    (module.create draft point).2.Preordered := by
  rintro first later id op next firstThere laterThere siblings before ⟨inner, there, encloses⟩
  have bound : later.index ≤ module.ops.size := by
    have small := index_lt_of_op? laterThere
    rw [ops_size_create] at small
    omega
  have firstOld : module.op? first = some op := by
    rcases op?_of_op?_create firstThere with rfl | old
    · exact absurd before (Nat.not_lt.mpr bound)
    · exact old
  rcases op?_of_op?_create there with rfl | old
  · -- The new operation is enclosed by operations with nothing after them.
    rw [op?_create_self] at there
    obtain rfl := Option.some.inj there
    rcases op?_of_op?_create laterThere with rfl | laterOld
    · rw [op?_create_self] at laterThere
      obtain rfl := Option.some.inj laterThere
      exact absurd encloses
        (not_encloses_create chronological listed firstThere siblings (Nat.le_refl _))
    · have last := opened first later op next firstOld laterOld siblings
        (encloses.of_create chronological listed)
      exact absurd before (Nat.not_lt.mpr last)
  · rcases op?_of_op?_create laterThere with rfl | laterOld
    · exact index_lt_of_op? old
    · obtain ⟨around, known, -⟩ := chronological.placed old
      exact preordered first later id op next firstOld laterOld siblings before
        ⟨inner, old, encloses.of_create chronological known⟩

/-- A creation leaves those blocks open that are numbered before its own. -/
theorem Open.create {block : BlockId} {old : Block} (known : module.block? block = some old)
    (small : block.index ≤ point.block.index) (opened : module.Open block) :
    (module.create draft point).2.Open block := by
  intro outer later op next outerThere laterThere siblings encloses
  rcases op?_of_op?_create laterThere with rfl | laterOld
  · rw [op?_create_self] at laterThere
    obtain rfl := Option.some.inj laterThere
    exact absurd encloses (not_encloses_create chronological listed outerThere siblings small)
  · rcases op?_of_op?_create outerThere with rfl | outerOld
    · exact Nat.le_of_lt (index_lt_of_op? laterOld)
    · exact opened outer later op next outerOld laterOld siblings
        (encloses.of_create chronological known)

/-- The region of an operation that is created in an open block is open. -/
theorem open_region {args : List ValueType} {rest : List (List ValueType)}
    (regions : draft.regions = args :: rest) (opened : module.Open point.block) :
    (module.create draft point).2.Open ⟨module.blocks.size⟩ := by
  have after : (module.create draft point).2.Forest := chronological.toForest.create listed
  have stays : (module.create draft point).2.Open point.block :=
    opened.create chronological listed listed (Nat.le_refl _)
  intro outer later op next outerThere laterThere siblings encloses
  have member : (⟨module.blocks.size⟩ : BlockId) ∈ module.freshBlocks draft.regions.length := by
    simp [mem_freshBlocks, regions]
  rcases after.encloses_region op?_create_self member encloses with rfl | around
  · have small := index_lt_of_op? laterThere
    rw [ops_size_create] at small
    exact Nat.le_of_lt_succ small
  · exact stays outer later op next outerThere laterThere siblings around

end Creation

/-! ## Visibility -/

section Visibility

variable {module : Module}

/-- What is visible to an operation is visible inside of it. -/
theorem Visible.of_encloses (forest : module.Forest) {outer : OpId} {value : Value}
    (visible : module.Visible outer value) {id : OpId} {op : Operation}
    (there : module.op? id = some op) (encloses : module.Encloses outer op.parent) :
    module.Visible id value := by
  obtain ⟨block, same⟩ : ∃ block, op.parent = block := ⟨_, rfl⟩
  rw [same] at encloses
  induction encloses generalizing id op with
  | region outerThere member =>
      obtain ⟨-, found, known, owned⟩ := forest.region outerThere _ member
      exact .outer there (same ▸ known) owned visible
  | inner _ innerThere member ih =>
      obtain ⟨-, found, known, owned⟩ := forest.region innerThere _ member
      exact .outer there (same ▸ known) owned (ih innerThere rfl)

/-- What is visible to an operation is defined in a block around it. -/
theorem Visible.home (forest : module.Forest) {id : OpId} {value : Value}
    (visible : module.Visible id value) :
    ∃ home, module.home? value = some home ∧ module.Around id home := by
  induction visible with
  | arg position there => exact ⟨_, rfl, _, there, .inl rfl⟩
  | result position there listed precedes =>
      obtain ⟨front, back, split, member⟩ := precedes
      obtain ⟨earlier, earlierThere, parent⟩ := forest.listed listed _
        (split ▸ List.mem_append_left _ member)
      refine ⟨earlier.parent, ?_, _, there, .inl parent.symm⟩
      simp only [home?, earlierThere, Option.map_some]
  | outer there listed owned _ ih =>
      obtain ⟨home, defined, owner, ownerThere, around⟩ := ih
      obtain ⟨same, ownerThere', region⟩ := forest.owner listed owned
      obtain rfl := Option.some.inj (ownerThere.symm.trans ownerThere')
      refine ⟨home, defined, _, there, .inr ?_⟩
      rcases around with here | ⟨outer, outerOp, outerThere, parent, encloses⟩
      · exact ⟨_, owner, ownerThere, here, .region ownerThere region⟩
      · exact ⟨outer, outerOp, outerThere, parent, .inner encloses ownerThere region⟩

/-- An argument of a block around an operation is visible to it. -/
theorem visible_arg (forest : module.Forest) {id : OpId} {block : BlockId}
    (around : module.Around id block) (position : Nat) :
    module.Visible id (.arg block position) := by
  obtain ⟨op, there, rfl | ⟨outer, outerOp, outerThere, rfl, encloses⟩⟩ := around
  · exact .arg position there
  · exact (Visible.arg position outerThere).of_encloses forest there encloses

/-- A result of an operation that stands before another one in its block. -/
theorem visible_before (chronological : module.Chronological) {earlier id : OpId}
    {first op : Operation} (earlierThere : module.op? earlier = some first)
    (there : module.op? id = some op) (siblings : first.parent = op.parent)
    (before : earlier.index < id.index) (position : Nat) :
    module.Visible id (.result earlier position) := by
  obtain ⟨found, listed, member⟩ := chronological.placed there
  obtain ⟨again, listed', earlierMember⟩ := chronological.placed earlierThere
  rw [siblings, listed] at listed'
  obtain rfl := Option.some.inj listed'
  obtain ⟨front, back, split⟩ := List.append_of_mem member
  refine .result position there listed ⟨front, back, split, ?_⟩
  have sorted := chronological.sorted listed
  rw [split] at earlierMember sorted
  have later := (List.pairwise_cons.mp (List.pairwise_append.mp sorted).2.1).1
  rcases List.mem_append.mp earlierMember with inFront | inBack
  · exact inFront
  · rcases List.mem_cons.mp inBack with rfl | after
    · exact absurd before (Nat.lt_irrefl _)
    · exact absurd before (Nat.lt_asymm (later earlier after))

/-- In preorder, a result made before an operation in a block around it is visible to it, unless
the operation is inside the one with the result. -/
theorem Preordered.visible_result (preordered : module.Preordered)
    (chronological : module.Chronological) {earlier id : OpId} {first : Operation}
    (earlierThere : module.op? earlier = some first) (around : module.Around id first.parent)
    (before : earlier.index < id.index) (apart : ¬ module.Holds earlier id) (position : Nat) :
    module.Visible id (.result earlier position) := by
  obtain ⟨op, there, siblings | ⟨outer, outerOp, outerThere, siblings, encloses⟩⟩ := around
  · exact visible_before chronological earlierThere there siblings.symm before position
  · have inside : module.Holds outer id := ⟨op, there, encloses⟩
    have standing : earlier.index < outer.index := by
      rcases Nat.lt_trichotomy earlier.index outer.index with less | same | greater
      · exact less
      · have same : earlier = outer := congrArg OpId.mk same
        exact absurd (same ▸ inside) apart
      · have late := preordered outer earlier id outerOp first outerThere earlierThere siblings
          greater inside
        exact absurd before (Nat.lt_asymm late)
    exact (visible_before chronological earlierThere outerThere siblings.symm standing
      position).of_encloses chronological.toForest there encloses

end Visibility

end AffineKernel.Module
