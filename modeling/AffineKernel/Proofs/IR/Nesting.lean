import AffineKernel.Proofs.IR.Growth

/-!
# The forest of a module

A module is *assembled* from the empty one by creating operations in its blocks
and replacing operands. However it was assembled, its operations and blocks form
a forest (`Module.Forest`): what a block lists is there and knows its block, the
regions of an operation are blocks that know their operation, and a region is
numbered after the block that lists its operation. So blocks nest no deeper than
there are blocks. Operations are numbered from the outside to the inside as well
(`Module.Numbered`).
-/

set_option autoImplicit false

namespace AffineKernel.Module

/-- A module that was put together from the empty one. -/
inductive Assembled : Module → Prop where
  | empty : Assembled .empty
  | create {module : Module} {found : Block} (draft : OpDraft) {point : InsertionPoint} :
      Assembled module → module.block? point.block = some found →
      Assembled (module.create draft point).2
  | setOperands {module : Module} (id : OpId) (operands : List Value) :
      Assembled module → Assembled (module.setOperands id operands)

/-- Operations and blocks know each other, and regions are numbered after the blocks around
them. -/
structure Forest (module : Module) : Prop where
  listed : ∀ {block : BlockId} {found : Block}, module.block? block = some found →
    ∀ id ∈ found.ops, ∃ op, module.op? id = some op ∧ op.parent = block
  region : ∀ {id : OpId} {op : Operation}, module.op? id = some op → ∀ region ∈ op.regions,
    op.parent.index < region.index ∧
      ∃ found, module.block? region = some found ∧ found.parent = some id
  owner : ∀ {block : BlockId} {found : Block} {owner : OpId}, module.block? block = some found →
    found.parent = some owner → ∃ op, module.op? owner = some op ∧ block ∈ op.regions

/-- What a name stands for is a function. -/
theorem exists_of_function? {module : Module} {name : String} {func : OpId}
    (named : module.function? name = some func) :
    ∃ op, module.op? func = some op ∧ op.kind = .func := by
  have listed := List.mem_of_find?_eq_some named
  simpa [opsOfKind, Option.any_eq_true] using (List.mem_filter.mp listed).2

/-! ## Creation -/

theorem mem_place {new id : OpId} {before : Option OpId} {ops : List OpId} :
    id ∈ place new before ops ↔ id = new ∨ id ∈ ops := by
  induction ops with
  | nil => simp [place]
  | cons first rest ih =>
      unfold place
      split
      · simp
      · simp only [List.mem_cons, ih]
        exact or_left_comm

theorem mem_freshBlocks {module : Module} {count : Nat} {block : BlockId} :
    block ∈ module.freshBlocks count ↔
      module.blocks.size ≤ block.index ∧ block.index < module.blocks.size + count := by
  simp only [freshBlocks, List.mem_map, List.mem_range]
  constructor
  · rintro ⟨position, small, rfl⟩
    exact ⟨Nat.le_add_right _ _, Nat.add_lt_add_left small _⟩
  · rintro ⟨low, high⟩
    exact ⟨block.index - module.blocks.size, by omega, congrArg BlockId.mk (by omega)⟩

variable {module : Module} {draft : OpDraft} {point : InsertionPoint} {found : Block}

/-- A block survives a creation, with what it knows of its operation. -/
theorem block?_create_parent {block : BlockId} {old : Block}
    (known : module.block? block = some old) :
    ∃ grown, (module.create draft point).2.block? block = some grown ∧
      grown.parent = old.parent := by
  by_cases same : block = point.block
  · subst same
    exact ⟨_, block?_create_self known, rfl⟩
  · exact ⟨old, block?_create_of_ne same known, rfl⟩

/-- The regions of a new operation are empty blocks of its own. -/
theorem block?_create_fresh (listed : module.block? point.block = some found) {block : BlockId}
    (fresh : block ∈ module.freshBlocks draft.regions.length) :
    ∃ made, (module.create draft point).2.block? block = some made ∧
      made.parent = some ⟨module.ops.size⟩ ∧ made.ops = [] := by
  obtain ⟨low, high⟩ := mem_freshBlocks.mp fresh
  have small := index_lt_of_block? listed
  have different : point.block.index ≠ block.index := by omega
  have place : block.index - module.blocks.size < draft.regions.length := by omega
  refine ⟨⟨draft.regions[block.index - module.blocks.size], [], some ⟨module.ops.size⟩⟩, ?_, rfl, rfl⟩
  simp only [block?, create]
  rw [Array.getElem?_modify, if_neg different, Array.getElem?_append_right low]
  simp [List.getElem?_eq_getElem place]

theorem Forest.create (forest : module.Forest) (listed : module.block? point.block = some found) :
    (module.create draft point).2.Forest where
  listed := by
    intro block grown known id member
    rcases block?_of_block?_create known with ⟨old, oldKnown, -, -, ops⟩ | ⟨new, -⟩
    · have older : id ∈ old.ops →
          ∃ op, (module.create draft point).2.op? id = some op ∧ op.parent = block := by
        intro inside
        obtain ⟨op, there, parent⟩ := forest.listed oldKnown id inside
        exact ⟨op, op?_create there, parent⟩
      rcases ops with same | ⟨rfl, same⟩
      · exact older (same ▸ member)
      · rcases mem_place.mp (same ▸ member) with rfl | inside
        · exact ⟨_, op?_create_self, rfl⟩
        · exact older inside
    · have fresh : block ∈ module.freshBlocks draft.regions.length := by
        have bound := index_lt_of_block? known
        rw [blocks_size_create] at bound
        exact mem_freshBlocks.mpr ⟨new, bound⟩
      obtain ⟨made, madeKnown, -, none⟩ := block?_create_fresh listed fresh
      obtain rfl : grown = made := Option.some.inj (known.symm.trans madeKnown)
      rw [none] at member
      cases member
  region := by
    intro id op there region member
    rcases op?_of_op?_create there with rfl | old
    · rw [op?_create_self] at there
      obtain rfl := Option.some.inj there
      obtain ⟨made, known, parent, -⟩ := block?_create_fresh listed member
      have low := (mem_freshBlocks.mp member).1
      exact ⟨Nat.lt_of_lt_of_le (index_lt_of_block? listed) low, made, known, parent⟩
    · obtain ⟨after, found, known, parent⟩ := forest.region old region member
      obtain ⟨grown, grownKnown, same⟩ := block?_create_parent known
      exact ⟨after, grown, grownKnown, same.trans parent⟩
  owner := by
    intro block grown owner known owned
    rcases block?_of_block?_create known with ⟨old, oldKnown, -, parent, -⟩ | ⟨new, parent⟩
    · obtain ⟨op, there, member⟩ := forest.owner oldKnown (parent ▸ owned)
      exact ⟨op, op?_create there, member⟩
    · obtain rfl : owner = ⟨module.ops.size⟩ := Option.some.inj (owned.symm.trans parent)
      have bound := index_lt_of_block? known
      rw [blocks_size_create] at bound
      exact ⟨_, op?_create_self, mem_freshBlocks.mpr ⟨new, bound⟩⟩

/-! ## Owners -/

/-- Every block with arguments is a region of an operation. -/
def Owned (module : Module) : Prop :=
  ∀ (block : BlockId) (found : Block), module.block? block = some found → found.args ≠ [] →
    ∃ owner op, found.parent = some owner ∧ module.op? owner = some op ∧ block ∈ op.regions

theorem owned_empty : empty.Owned := by
  intro block found known args
  have bound := index_lt_of_block? known
  obtain ⟨index⟩ := block
  obtain rfl : index = 0 := by simpa [empty] using bound
  obtain rfl : (⟨[], [], none⟩ : Block) = found := Option.some.inj known
  exact absurd rfl args

theorem Owned.create (owned : module.Owned) (draft : OpDraft) (point : InsertionPoint) :
    (module.create draft point).2.Owned := by
  intro block grown known args
  rcases block?_of_block?_create known with ⟨old, oldKnown, same, parent, -⟩ | ⟨new, parent⟩
  · obtain ⟨owner, op, ownedBy, there, member⟩ := owned block old oldKnown (same ▸ args)
    exact ⟨owner, op, parent.trans ownedBy, op?_create there, member⟩
  · have bound := index_lt_of_block? known
    rw [blocks_size_create] at bound
    exact ⟨_, _, parent, op?_create_self, mem_freshBlocks.mpr ⟨new, bound⟩⟩

/-- The operation or block of a value was made before an operation. -/
def Prior (module : Module) (id : OpId) : Value → Prop
  | .result op _ => op.index < id.index
  | .arg block _ => ∃ found owner, module.block? block = some found ∧
      found.parent = some owner ∧ owner.index < id.index

theorem Prior.create {id : OpId} {value : Value} (prior : module.Prior id value) (draft : OpDraft)
    (point : InsertionPoint) : (module.create draft point).2.Prior id value := by
  cases value with
  | result op position => exact prior
  | arg block position =>
      obtain ⟨found, owner, known, owned, before⟩ := prior
      obtain ⟨grown, grownKnown, same⟩ := block?_create_parent known
      exact ⟨grown, owner, grownKnown, same.trans owned, before⟩

/-- All values of a module were made before the next operation. -/
theorem Owned.prior (owned : module.Owned) {value : Value} {type : ValueType}
    (typed : module.valueType? value = some type) : module.Prior ⟨module.ops.size⟩ value := by
  cases value with
  | result op position =>
      obtain ⟨found, there, -⟩ := Option.bind_eq_some_iff.mp typed
      exact index_lt_of_op? there
  | arg block position =>
      obtain ⟨found, known, listed⟩ := Option.bind_eq_some_iff.mp typed
      have args : found.args ≠ [] := by
        rintro none
        rw [none] at listed
        cases listed
      obtain ⟨owner, op, parent, there, -⟩ := owned block found known args
      exact ⟨found, owner, known, parent, index_lt_of_op? there⟩

/-! ## Assembly -/

theorem op?_setOperands {id other : OpId} {operands : List Value} :
    (module.setOperands id operands).op? other =
      (module.op? other).map fun op =>
        if id = other then { op with operands := operands } else op := by
  simp only [op?, setOperands, Array.getElem?_modify]
  by_cases same : id.index = other.index
  · obtain rfl : id = other := congrArg OpId.mk same
    simp
  · have different : id ≠ other := fun equal => same (congrArg OpId.index equal)
    simp [same, different]

theorem Forest.setOperands (forest : module.Forest) (id : OpId) (operands : List Value) :
    (module.setOperands id operands).Forest := by
  have kept : ∀ {other : OpId} {op : Operation}, module.op? other = some op →
      ∃ later, (module.setOperands id operands).op? other = some later ∧
        later.parent = op.parent ∧ later.regions = op.regions := by
    intro other op there
    rw [op?_setOperands, there]
    by_cases same : id = other
    · exact ⟨_, rfl, by simp [same], by simp [same]⟩
    · exact ⟨_, rfl, by simp [same], by simp [same]⟩
  refine
    { listed := fun known other member => ?_
      region := fun {other op} there region member => ?_
      owner := fun known owned => ?_ }
  · obtain ⟨op, there, parent⟩ := forest.listed known other member
    obtain ⟨later, found, same, -⟩ := kept there
    exact ⟨later, found, same.trans parent⟩
  · rw [op?_setOperands] at there
    obtain ⟨old, oldThere, rfl⟩ := Option.map_eq_some_iff.mp there
    have same : (if id = other then { old with operands := operands } else old).parent =
        old.parent ∧ (if id = other then { old with operands := operands } else old).regions =
          old.regions := by
      split <;> exact ⟨rfl, rfl⟩
    rw [same.1]
    exact forest.region oldThere region (same.2 ▸ member)
  · obtain ⟨op, there, member⟩ := forest.owner known owned
    obtain ⟨later, found, -, same⟩ := kept there
    exact ⟨later, found, same ▸ member⟩

theorem forest_empty : empty.Forest where
  listed := by
    intro block found known id member
    have bound := index_lt_of_block? known
    obtain ⟨index⟩ := block
    obtain rfl : index = 0 := by simpa [empty] using bound
    obtain rfl : (⟨[], [], none⟩ : Block) = found := Option.some.inj known
    cases member
  region := by
    intro id op there
    simp [op?, empty] at there
  owner := by
    intro block found owner known owned
    have bound := index_lt_of_block? known
    obtain ⟨index⟩ := block
    obtain rfl : index = 0 := by simpa [empty] using bound
    obtain rfl : (⟨[], [], none⟩ : Block) = found := Option.some.inj known
    cases owned

/-- However a module was assembled, it is a forest. -/
theorem Assembled.forest (assembled : module.Assembled) : module.Forest := by
  induction assembled with
  | empty => exact forest_empty
  | create draft _ listed ih => exact ih.create listed
  | setOperands id operands _ ih => exact ih.setOperands id operands

/-! ## Listed once -/

/-- The operation is put among the others. -/
theorem place_perm (new : OpId) (before : Option OpId) (ops : List OpId) :
    (place new before ops).Perm (new :: ops) := by
  induction ops with
  | nil => exact .refl _
  | cons first rest ih =>
      unfold place
      split
      · exact .refl _
      · exact (ih.cons first).trans (.swap new first rest)

/-- However a module was assembled, no block lists an operation twice. -/
theorem Assembled.listed_once (assembled : module.Assembled) {block : BlockId} {found : Block}
    (known : module.block? block = some found) : found.ops.Nodup := by
  induction assembled generalizing block found with
  | empty =>
      have bound := index_lt_of_block? known
      obtain ⟨index⟩ := block
      obtain rfl : index = 0 := by simpa [Module.empty] using bound
      obtain rfl : (⟨[], [], none⟩ : Block) = found := Option.some.inj known
      exact .nil
  | @create module place draft point assembled listed ih =>
      rcases block?_of_block?_create known with ⟨old, oldKnown, -, -, same | ⟨rfl, same⟩⟩ | ⟨new, -⟩
      · exact same ▸ ih oldKnown
      · rw [same, (place_perm _ _ _).nodup_iff, List.nodup_cons]
        refine ⟨fun member => ?_, ih oldKnown⟩
        obtain ⟨op, there, -⟩ := assembled.forest.listed oldKnown _ member
        exact Nat.lt_irrefl _ (index_lt_of_op? there)
      · have bound := index_lt_of_block? known
        rw [blocks_size_create] at bound
        obtain ⟨made, madeKnown, -, none⟩ :=
          block?_create_fresh listed (mem_freshBlocks.mpr ⟨new, bound⟩)
        obtain rfl : found = made := Option.some.inj (known.symm.trans madeKnown)
        rw [none]
        exact .nil
  | setOperands id operands _ ih => exact ih known

/-- A block is a region of one operation only. -/
theorem Forest.region_unique (forest : module.Forest) {block : BlockId} {first second : OpId}
    {firstOp secondOp : Operation} (firstThere : module.op? first = some firstOp)
    (firstMember : block ∈ firstOp.regions) (secondThere : module.op? second = some secondOp)
    (secondMember : block ∈ secondOp.regions) : first = second := by
  obtain ⟨-, found, known, parent⟩ := forest.region firstThere block firstMember
  obtain ⟨-, other, otherKnown, otherParent⟩ := forest.region secondThere block secondMember
  obtain rfl := Option.some.inj (known.symm.trans otherKnown)
  exact Option.some.inj (parent.symm.trans otherParent)

/-! ## Order of the numbers -/

/-- Every operation is listed by its parent, and a block lists what is numbered after its owner. -/
structure Numbered (module : Module) : Prop extends module.Forest where
  placed : ∀ {id : OpId} {op : Operation}, module.op? id = some op →
    ∃ found, module.block? op.parent = some found ∧ id ∈ found.ops
  inner : ∀ {block : BlockId} {found : Block} {owner : OpId}, module.block? block = some found →
    found.parent = some owner → ∀ id ∈ found.ops, owner.index < id.index

theorem numbered_empty : empty.Numbered where
  toForest := forest_empty
  placed := by
    intro id op there
    simp [op?, empty] at there
  inner := by
    intro block found owner known owned
    have bound := index_lt_of_block? known
    obtain ⟨index⟩ := block
    obtain rfl : index = 0 := by simpa [empty] using bound
    obtain rfl : (⟨[], [], none⟩ : Block) = found := Option.some.inj known
    cases owned

theorem Numbered.create (numbered : module.Numbered)
    (listed : module.block? point.block = some found) :
    (module.create draft point).2.Numbered where
  toForest := numbered.toForest.create listed
  placed := by
    intro id op there
    rcases op?_of_op?_create there with rfl | old
    · rw [op?_create_self] at there
      obtain rfl := Option.some.inj there
      exact ⟨_, block?_create_self listed, mem_place.mpr (.inl rfl)⟩
    · obtain ⟨block, known, member⟩ := numbered.placed old
      by_cases same : op.parent = point.block
      · rw [same] at known ⊢
        exact ⟨_, block?_create_self known, mem_place.mpr (.inr member)⟩
      · exact ⟨block, block?_create_of_ne same known, member⟩
  inner := by
    intro block grown owner known owned id member
    rcases block?_of_block?_create known with ⟨old, oldKnown, -, parent, ops⟩ | ⟨new, -⟩
    · rw [parent] at owned
      obtain ⟨op, there, -⟩ := numbered.owner oldKnown owned
      have origin : id = ⟨module.ops.size⟩ ∨ id ∈ old.ops := by
        rcases ops with same | ⟨-, same⟩
        · exact .inr (same ▸ member)
        · exact mem_place.mp (same ▸ member)
      rcases origin with rfl | inside
      · exact index_lt_of_op? there
      · exact numbered.inner oldKnown owned id inside
    · have bound := index_lt_of_block? known
      rw [blocks_size_create] at bound
      obtain ⟨made, madeKnown, -, none⟩ :=
        block?_create_fresh listed (mem_freshBlocks.mpr ⟨new, bound⟩)
      obtain rfl : grown = made := Option.some.inj (known.symm.trans madeKnown)
      rw [none] at member
      cases member

theorem Numbered.setOperands (numbered : module.Numbered) (id : OpId) (operands : List Value) :
    (module.setOperands id operands).Numbered where
  toForest := numbered.toForest.setOperands id operands
  placed := by
    intro other op there
    rw [op?_setOperands] at there
    obtain ⟨old, oldThere, rfl⟩ := Option.map_eq_some_iff.mp there
    have parent : (if id = other then { old with operands := operands } else old).parent =
        old.parent := by split <;> rfl
    rw [parent]
    exact numbered.placed oldThere
  inner := numbered.inner

theorem Assembled.numbered (assembled : module.Assembled) : module.Numbered := by
  induction assembled with
  | empty => exact numbered_empty
  | create draft _ listed ih => exact ih.create listed
  | setOperands id operands _ ih => exact ih.setOperands id operands

/-- An operation is numbered after the one that owns its block. -/
theorem Numbered.owner_lt (numbered : module.Numbered) {id owner : OpId} {op : Operation}
    (there : module.op? id = some op) (known : module.block? op.parent = some found)
    (owned : found.parent = some owner) : owner.index < id.index := by
  obtain ⟨block, listed, member⟩ := numbered.placed there
  obtain rfl := Option.some.inj (known.symm.trans listed)
  exact numbered.inner known owned id member

end AffineKernel.Module
