import AffineKernel.IR.Module

/-!
# Growth of modules

Creating an operation adds it under the next number and lists it in the block
of the insertion point; the regions of the operation become new blocks. What the
module had before stays: an operation is never changed, and a block only
receives further operations.

`Module.Grows` says this of two modules that are any number of creations apart,
where only the blocks of a given set may have received operations. Types of
values survive growth (`Grows.valueType?`), and growth inside a block that did
not exist at the beginning is not seen by the blocks of the beginning
(`Grows.trans`).
-/

set_option autoImplicit false

namespace AffineKernel.Module

/-! ## One creation -/

/-- An operation without one to stand before is listed last. -/
theorem place_none (new : OpId) (ops : List OpId) : place new none ops = ops ++ [new] := by
  induction ops with
  | nil => rfl
  | cons id rest ih => simp [place, ih]

variable {module : Module} {draft : OpDraft} {point : InsertionPoint}

/-- The operation that a creation adds. -/
theorem op?_create_self :
    (module.create draft point).2.op? ⟨module.ops.size⟩ =
      some
        { kind := draft.kind
          operands := draft.operands
          results := draft.results
          attributes := draft.attributes
          regions := module.freshBlocks draft.regions.length
          parent := point.block } := by
  simp [op?, create]

/-- Nothing else is added. -/
theorem op?_create_new {id : OpId} {op : Operation} (new : module.ops.size ≤ id.index)
    (found : (module.create draft point).2.op? id = some op) :
    op.kind = draft.kind ∧ op.regions = module.freshBlocks draft.regions.length := by
  have bound : id.index < module.ops.size + 1 := by
    have small := (Array.getElem?_eq_some_iff.mp found).1
    simpa [create] using small
  obtain rfl : id = ⟨module.ops.size⟩ := congrArg OpId.mk (by omega)
  obtain rfl := Option.some.inj (op?_create_self.symm.trans found)
  exact ⟨rfl, rfl⟩

/-- The operations of a module survive a creation. -/
theorem op?_create {id : OpId} {op : Operation} (found : module.op? id = some op) :
    (module.create draft point).2.op? id = some op := by
  have small : id.index < module.ops.size := by
    rw [op?] at found
    exact (Array.getElem?_eq_some_iff.mp found).1
  simp only [op?, create]
  rw [Array.getElem?_push_lt small]
  simpa [op?, Array.getElem?_eq_getElem small] using found

/-- An operation of the grown module is the new one or an old one. -/
theorem op?_of_op?_create {id : OpId} {op : Operation}
    (found : (module.create draft point).2.op? id = some op) :
    id = ⟨module.ops.size⟩ ∨ module.op? id = some op := by
  simp only [op?, create, Array.getElem?_push] at found
  split at found
  · rename_i same
    exact .inl (congrArg OpId.mk same)
  · exact .inr found

theorem ops_size_create :
    (module.create draft point).2.ops.size = module.ops.size + 1 := by
  simp [create]

theorem blocks_size_create :
    (module.create draft point).2.blocks.size = module.blocks.size + draft.regions.length := by
  simp [create]

theorem index_lt_of_block? {block : BlockId} {found : Block}
    (listed : module.block? block = some found) : block.index < module.blocks.size :=
  (Array.getElem?_eq_some_iff.mp listed).1

theorem index_lt_of_op? {id : OpId} {op : Operation} (found : module.op? id = some op) :
    id.index < module.ops.size :=
  (Array.getElem?_eq_some_iff.mp found).1

/-- A creation leaves the blocks alone that it does not insert into. -/
theorem block?_create_of_ne {block : BlockId} {found : Block} (other : block ≠ point.block)
    (listed : module.block? block = some found) :
    (module.create draft point).2.block? block = some found := by
  have small := index_lt_of_block? listed
  have different : point.block.index ≠ block.index := by
    intro same
    exact other (congrArg BlockId.mk same.symm)
  simp only [block?, create]
  rw [Array.getElem?_modify, if_neg different, Array.getElem?_append_left small]
  exact listed

/-- A creation lists the new operation in the block of the insertion point. -/
theorem block?_create_self {found : Block} (listed : module.block? point.block = some found) :
    (module.create draft point).2.block? point.block =
      some { found with ops := place ⟨module.ops.size⟩ point.before found.ops } := by
  have small := index_lt_of_block? listed
  simp only [block?] at listed
  simp only [block?, create]
  rw [Array.getElem?_modify, if_pos rfl, Array.getElem?_append_left small, listed]
  rfl

/-- At the end of a block, the new operation is listed last. -/
theorem block?_create_atEnd {found : Block} (listed : module.block? point.block = some found)
    (atEnd : point.before = none) :
    (module.create draft point).2.block? point.block =
      some { found with ops := found.ops ++ [⟨module.ops.size⟩] } := by
  rw [block?_create_self listed, atEnd, place_none]

/-- The first region of a new operation is an empty block. -/
theorem block?_create_region {args : List ValueType} {rest : List (List ValueType)}
    {found : Block} (listed : module.block? point.block = some found)
    (regions : draft.regions = args :: rest) :
    (module.create draft point).2.block? ⟨module.blocks.size⟩ =
      some ⟨args, [], some ⟨module.ops.size⟩⟩ := by
  have small := index_lt_of_block? listed
  have different : point.block.index ≠ module.blocks.size := by omega
  simp only [block?, create]
  rw [Array.getElem?_modify, if_neg different, Array.getElem?_append_right (by omega)]
  simp [regions]

/-- A block of the grown module is a block of the old one, perhaps with the new operation listed,
or a region of the new operation. -/
theorem block?_of_block?_create {block : BlockId} {found : Block}
    (listed : (module.create draft point).2.block? block = some found) :
    (∃ old, module.block? block = some old ∧
        found.args = old.args ∧ found.parent = old.parent ∧
        (found.ops = old.ops ∨
          block = point.block ∧ found.ops = place ⟨module.ops.size⟩ point.before old.ops)) ∨
      (module.blocks.size ≤ block.index ∧ found.parent = some ⟨module.ops.size⟩) := by
  by_cases small : block.index < module.blocks.size
  · left
    obtain ⟨old, oldListed⟩ : ∃ old, module.block? block = some old :=
      ⟨_, Array.getElem?_eq_getElem small⟩
    by_cases same : block = point.block
    · subst same
      rw [block?_create_self oldListed] at listed
      obtain rfl := Option.some.inj listed
      exact ⟨old, oldListed, rfl, rfl, .inr ⟨rfl, rfl⟩⟩
    · rw [block?_create_of_ne same oldListed] at listed
      obtain rfl := Option.some.inj listed
      exact ⟨_, oldListed, rfl, rfl, .inl rfl⟩
  · right
    refine ⟨by omega, ?_⟩
    simp only [block?, create] at listed
    rw [Array.getElem?_modify] at listed
    split at listed
    · rw [Array.getElem?_append_right (by omega)] at listed
      simp only [List.getElem?_toArray, List.getElem?_map, Option.map_map,
        Option.map_eq_some_iff] at listed
      obtain ⟨args, -, rfl⟩ := listed
      rfl
    · rw [Array.getElem?_append_right (by omega)] at listed
      simp only [List.getElem?_toArray, List.getElem?_map, Option.map_eq_some_iff] at listed
      obtain ⟨args, -, rfl⟩ := listed
      rfl

/-! ## Many creations -/

/-- `after` has everything that `before` has, and only the blocks of `receives` have received further
operations, at their end. -/
structure Grows (receives : BlockId → Prop) (before after : Module) : Prop where
  op? : ∀ {id : OpId} {op : Operation}, before.op? id = some op → after.op? id = some op
  block? : ∀ {block : BlockId} {found : Block}, before.block? block = some found →
    ∃ added, after.block? block = some { found with ops := found.ops ++ added } ∧
      (¬ receives block → added = [])
  ops_le : before.ops.size ≤ after.ops.size
  blocks_le : before.blocks.size ≤ after.blocks.size

namespace Grows

variable {receives further : BlockId → Prop} {before middle after : Module}

theorem refl (receives : BlockId → Prop) (module : Module) : Grows receives module module where
  op? found := found
  block? found := ⟨[], by simpa using found, fun _ => rfl⟩
  ops_le := Nat.le_refl _
  blocks_le := Nat.le_refl _

/-- Growth goes on, as long as the blocks that receive operations later either receive some from
the beginning or are not there at the beginning. -/
theorem trans (first : Grows receives before middle) (second : Grows further middle after)
    (known : ∀ block : BlockId, block.index < before.blocks.size → further block →
      receives block) :
    Grows receives before after where
  op? found := second.op? (first.op? found)
  block? {block found} listed := by
    obtain ⟨added, middleListed, quiet⟩ := first.block? listed
    obtain ⟨more, afterListed, still⟩ := second.block? middleListed
    refine ⟨added ++ more, by simpa using afterListed, fun closed => ?_⟩
    have last : more = [] := still fun late =>
      closed (known block (index_lt_of_block? listed) late)
    rw [quiet closed, last]
    rfl
  ops_le := Nat.le_trans first.ops_le second.ops_le
  blocks_le := Nat.le_trans first.blocks_le second.blocks_le

theorem mono (grows : Grows receives before after)
    (wider : ∀ block, receives block → further block) : Grows further before after where
  op? := grows.op?
  block? listed := by
    obtain ⟨added, found, quiet⟩ := grows.block? listed
    exact ⟨added, found, fun closed => quiet fun inside => closed (wider _ inside)⟩
  ops_le := grows.ops_le
  blocks_le := grows.blocks_le

/-- A block that receives nothing stays as it is. -/
theorem block?_of_not (grows : Grows receives before after) {block : BlockId} {found : Block}
    (closed : ¬ receives block) (listed : before.block? block = some found) :
    after.block? block = some found := by
  obtain ⟨added, afterListed, quiet⟩ := grows.block? listed
  rw [quiet closed] at afterListed
  simpa using afterListed

/-- An operation of the grown module was there before, or it has a later number. -/
theorem op?_or_new (grows : Grows receives before after) {id : OpId} {op : Operation}
    (found : after.op? id = some op) : before.op? id = some op ∨ before.ops.size ≤ id.index := by
  by_cases old : id.index < before.ops.size
  · have known : before.op? id = some before.ops[id.index] := Array.getElem?_eq_getElem old
    exact .inl (known.trans ((grows.op? known).symm.trans found))
  · exact .inr (Nat.le_of_not_lt old)

/-- Values keep their types. -/
theorem valueType? (grows : Grows receives before after) {value : Value} {type : ValueType}
    (typed : before.valueType? value = some type) : after.valueType? value = some type := by
  cases value with
  | result op position =>
      simp only [Module.valueType?, Option.bind_eq_bind, Option.bind_eq_some_iff] at typed ⊢
      obtain ⟨found, listed, known⟩ := typed
      exact ⟨found, grows.op? listed, known⟩
  | arg block position =>
      simp only [Module.valueType?, Option.bind_eq_bind, Option.bind_eq_some_iff] at typed ⊢
      obtain ⟨found, listed, known⟩ := typed
      obtain ⟨added, afterListed, -⟩ := grows.block? listed
      exact ⟨_, afterListed, known⟩

end Grows

/-- A creation at the end of a block lets that block grow. -/
theorem grows_create (atEnd : point.before = none) :
    Grows (· = point.block) module (module.create draft point).2 where
  op? := op?_create
  block? {block found} listed := by
    by_cases same : block = point.block
    · subst same
      exact ⟨_, block?_create_atEnd listed atEnd, fun closed => absurd rfl closed⟩
    · exact ⟨[], by simpa using block?_create_of_ne same listed, fun _ => rfl⟩
  ops_le := by rw [ops_size_create]; omega
  blocks_le := by rw [blocks_size_create]; omega

end AffineKernel.Module
