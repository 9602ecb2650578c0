import AffineKernel.Proofs.IR.Enclosure
import Mathlib.Data.List.Nodup

/-!
# Numbers and ancestors

However a module was assembled, its blocks list every operation once, and in the
block that is its parent; its operations own every block but the body once, and
each block knows its owner. An operation is numbered after the operation around
it, so whoever climbs from a block to the operation that owns it, and on to the
block that lists this operation, comes to the body after finitely many steps.

The operations passed on the way are the *ancestry* of the block
(`Module.Ancestry`). It exists for every block (`Forest.exists_ancestry`), it
consists of exactly the operations that enclose the block
(`Ancestry.mem_iff`), and the look-up of an enclosing operation searches it from
the inside out (`Ancestry.enclosingFrom_eq`), so that it finds the innermost one.

`Module.ids_form_forest` puts this together, with what a creation does to the
blocks: the new operation stands where the insertion point says, and nothing else
moves.
-/

set_option autoImplicit false

namespace AffineKernel.Module

/-! ## Notions -/

/-- Everything that the blocks list, block after block. -/
def listedOps (module : Module) : List OpId := module.blocks.toList.flatMap (·.ops)

/-- Everything that the operations own, operation after operation. -/
def ownedBlocks (module : Module) : List BlockId := module.ops.toList.flatMap (·.regions)

/-- The blocks list every operation once, in the block that is its parent, and nothing else. -/
def ListsEachOnce (module : Module) : Prop :=
  (∀ id ∈ module.listedOps, id.index < module.size) ∧
    ∀ id : OpId, id.index < module.size →
      module.listedOps.count id = 1 ∧
        ∃ op found, module.op? id = some op ∧ module.block? op.parent = some found ∧
          id ∈ found.ops

/-- The operations own every block but the body once, the owner is the one that the block knows,
and nobody owns the body. -/
def OwnsEachOnce (module : Module) : Prop :=
  (∃ found, module.block? body = some found ∧ found.parent = none) ∧
    body ∉ module.ownedBlocks ∧
    ∀ block : BlockId, block ≠ body → block.index < module.blocks.size →
      module.ownedBlocks.count block = 1 ∧
        ∃ owner op found, module.op? owner = some op ∧ block ∈ op.regions ∧
          module.block? block = some found ∧ found.parent = some owner

/-- An operation is numbered after the operation around it. -/
def OwnersFirst (module : Module) : Prop :=
  ∀ (id owner : OpId) (op : Operation) (found : Block), module.op? id = some op →
    module.block? op.parent = some found → found.parent = some owner → owner.index < id.index

/-- A creation lists the new operation right before the one that the insertion point names, or last
if the block of the insertion point does not list that one. It takes the next number, and what
blocks know and list stays the same otherwise. -/
def Inserts (module : Module) (draft : OpDraft) (point : InsertionPoint) (found : Block) : Prop :=
  let id := (module.create draft point).1
  let grown := (module.create draft point).2
  id.index = module.size ∧
    (∃ ops, grown.block? point.block = some { found with ops := ops } ∧
      (∀ before, point.before = some before → before ∈ found.ops →
        ∃ front back, found.ops = front ++ before :: back ∧ ops = front ++ id :: before :: back) ∧
      ((∀ before, point.before = some before → before ∉ found.ops) →
        ops = found.ops ++ [id])) ∧
    ∀ (other : BlockId) (kept : Block), other ≠ point.block → module.block? other = some kept →
      grown.block? other = some kept

/-- The operations around a block, the innermost first. -/
inductive Ancestry (module : Module) : BlockId → List OpId → Prop where
  /-- There is nothing around the body. -/
  | root {block : BlockId} {found : Block} :
      module.block? block = some found → found.parent = none → Ancestry module block []
  /-- Around a region there is its owner, and what is around the block of the owner. -/
  | inner {block : BlockId} {found : Block} {owner : OpId} {op : Operation} {chain : List OpId} :
      module.block? block = some found → found.parent = some owner →
      module.op? owner = some op → Ancestry module op.parent chain →
      Ancestry module block (owner :: chain)

/-- The number of an operation of a kind. -/
def OfKind (module : Module) (kind : OpKind) (id : OpId) : Prop :=
  ∃ op, module.op? id = some op ∧ op.kind = kind

/-- Of the operations of a kind around a block, the one that all others enclose. -/
def Innermost (module : Module) (kind : OpKind) (block : BlockId) (id : OpId) : Prop :=
  module.Encloses id block ∧ module.OfKind kind id ∧
    ∀ other, module.Encloses other block → module.OfKind kind other →
      other = id ∨ module.Holds other id

/-! ## Insertion -/

/-- An operation to stand before is kept right behind the new one. -/
theorem exists_place_before (new : OpId) {before : OpId} {ops : List OpId}
    (listed : before ∈ ops) :
    ∃ front back, ops = front ++ before :: back ∧
      place new (some before) ops = front ++ new :: before :: back := by
  induction ops with
  | nil => cases listed
  | cons first rest ih =>
      by_cases same : before = first
      · subst same
        exact ⟨[], rest, rfl, by simp [place]⟩
      · obtain ⟨front, back, split, placed⟩ := ih (List.mem_of_ne_of_mem same listed)
        refine ⟨first :: front, back, by rw [split, List.cons_append], ?_⟩
        simp [place, same, placed]

/-- Without an operation to stand before, the new one comes last. -/
theorem place_absent (new : OpId) {before : Option OpId} {ops : List OpId}
    (absent : ∀ id, before = some id → id ∉ ops) : place new before ops = ops ++ [new] := by
  induction ops with
  | nil => rfl
  | cons first rest ih =>
      have different : before ≠ some first := fun same => absent first same List.mem_cons_self
      have later : ∀ id, before = some id → id ∉ rest := fun id same inside =>
        absent id same (List.mem_cons_of_mem first inside)
      simp [place, different, ih later]

variable {module : Module} {draft : OpDraft} {point : InsertionPoint} {found : Block}

theorem inserts_create (listed : module.block? point.block = some found) :
    module.Inserts draft point found := by
  refine ⟨rfl, ⟨_, block?_create_self listed, ?_, place_absent _⟩,
    fun other kept different known => block?_create_of_ne different known⟩
  intro before named inside
  rw [named]
  exact exists_place_before _ inside

/-! ## Once each -/

/-- Changing one item of a list changes one part of what the items yield. -/
theorem flatMap_modify_perm {α β : Type} {items : List α} {position : Nat} {change : α → α}
    {parts : α → List β} {more : β} (inside : position < items.length)
    (grows : ∀ item ∈ items, (parts (change item)).Perm (more :: parts item)) :
    ((items.modify position change).flatMap parts).Perm (more :: items.flatMap parts) := by
  induction items generalizing position with
  | nil => cases inside
  | cons item rest ih =>
      cases position with
      | zero => exact (grows item List.mem_cons_self).append_right _
      | succ position =>
          have later := ih (Nat.lt_of_succ_lt_succ inside) fun other member =>
            grows other (List.mem_cons_of_mem item member)
          exact (later.append_left (parts item)).trans List.perm_middle

/-- A creation adds one operation to what the blocks list. -/
theorem listedOps_create (listed : module.block? point.block = some found) :
    (module.create draft point).2.listedOps.Perm (⟨module.size⟩ :: module.listedOps) := by
  have small := index_lt_of_block? listed
  have blocks : (module.create draft point).2.blocks.toList =
      (module.blocks.toList ++
        draft.regions.map fun args => Block.mk args [] (some ⟨module.ops.size⟩)).modify
          point.block.index
          fun block => { block with ops := place ⟨module.ops.size⟩ point.before block.ops } := by
    simp [create, Array.toList_modify]
  have old : (module.blocks.toList ++
      draft.regions.map fun args => Block.mk args [] (some ⟨module.ops.size⟩)).flatMap
        (·.ops) = module.listedOps := by
    simp [listedOps, List.flatMap_append, List.flatMap_map]
  rw [listedOps, blocks, ← old]
  refine flatMap_modify_perm ?_ fun block _ => place_perm _ _ _
  rw [List.length_append, Array.length_toList]
  exact Nat.lt_of_lt_of_le small (Nat.le_add_right _ _)

/-- A creation adds the new blocks to what the operations own. -/
theorem ownedBlocks_create : (module.create draft point).2.ownedBlocks =
    module.ownedBlocks ++ module.freshBlocks draft.regions.length := by
  simp [ownedBlocks, create]

theorem ownedBlocks_setOperands (id : OpId) (operands : List Value) :
    (module.setOperands id operands).ownedBlocks = module.ownedBlocks := by
  have same : ∀ (ops : List Operation) (position : Nat),
      (ops.modify position fun op => { op with operands := operands }).flatMap (·.regions) =
        ops.flatMap (·.regions) := by
    intro ops position
    induction ops generalizing position with
    | nil => simp
    | cons op rest ih => cases position <;> simp [ih]
  simp [ownedBlocks, setOperands, Array.toList_modify, same]

/-- The blocks list every number once. -/
theorem Assembled.listedOps_perm (assembled : module.Assembled) :
    module.listedOps.Perm ((List.range module.size).map OpId.mk) := by
  induction assembled with
  | empty => exact .refl _
  | @create module found draft point _ listed ih =>
      have size : (module.create draft point).2.size = module.size + 1 := ops_size_create
      refine (listedOps_create listed).trans ((ih.cons _).trans ?_)
      rw [size, List.range_succ, List.map_append]
      exact (List.perm_append_singleton _ _).symm
  | @setOperands module id operands _ ih =>
      have size : (module.setOperands id operands).size = module.size := by
        simp [Module.size, Module.setOperands]
      rw [size]
      exact ih

/-- The operations own the blocks in the order of their numbers, from the first one after the
body. -/
theorem Assembled.ownedBlocks_eq (assembled : module.Assembled) :
    0 < module.blocks.size ∧
      module.ownedBlocks = (List.range' 1 (module.blocks.size - 1)).map BlockId.mk := by
  induction assembled with
  | empty => exact ⟨Nat.one_pos, rfl⟩
  | @create module found draft point _ _ ih =>
      obtain ⟨positive, same⟩ := ih
      have fresh : module.freshBlocks draft.regions.length =
          (List.range' (1 + (module.blocks.size - 1)) draft.regions.length).map BlockId.mk := by
        have first : 1 + (module.blocks.size - 1) = module.blocks.size := by omega
        rw [first, List.range'_eq_map_range, freshBlocks, List.map_map]
        rfl
      have count : module.blocks.size + draft.regions.length - 1 =
          module.blocks.size - 1 + draft.regions.length := by omega
      rw [blocks_size_create, ownedBlocks_create, same, fresh, count, ← List.map_append,
        List.range'_append_1]
      exact ⟨by omega, rfl⟩
  | setOperands id operands _ ih =>
      rw [ownedBlocks_setOperands]
      exact ih

/-! ## Ancestry -/

/-- Every block has an ancestry: the block around a region is numbered before it. -/
theorem Forest.exists_ancestry (forest : module.Forest) {block : BlockId} {found : Block}
    (known : module.block? block = some found) : ∃ chain, module.Ancestry block chain := by
  obtain ⟨index, same⟩ : ∃ index, block.index = index := ⟨_, rfl⟩
  induction index using Nat.strongRecOn generalizing block found with
  | _ index ih =>
      cases owned : found.parent with
      | none => exact ⟨[], .root known owned⟩
      | some owner =>
          obtain ⟨op, there, member⟩ := forest.owner known owned
          have before := (forest.region there block member).1
          obtain ⟨around, aroundKnown⟩ : ∃ around, module.block? op.parent = some around :=
            ⟨_, Array.getElem?_eq_getElem (Nat.lt_trans before (index_lt_of_block? known))⟩
          obtain ⟨chain, ancestry⟩ := ih op.parent.index (same ▸ before) aroundKnown rfl
          exact ⟨owner :: chain, .inner known owned there ancestry⟩

namespace Ancestry

variable {block : BlockId} {chain : List OpId}

/-- The ancestry of a region starts with its owner. -/
theorem eq_cons (ancestry : module.Ancestry block chain) {owner : OpId} {op : Operation}
    (known : module.block? block = some found) (owned : found.parent = some owner)
    (there : module.op? owner = some op) :
    ∃ rest, chain = owner :: rest ∧ module.Ancestry op.parent rest := by
  cases ancestry with
  | root known' owned' =>
      obtain rfl := Option.some.inj (known.symm.trans known')
      rw [owned] at owned'
      cases owned'
  | @inner _ _ _ _ rest known' owned' there' outer =>
      obtain rfl := Option.some.inj (known.symm.trans known')
      obtain rfl := Option.some.inj (owned.symm.trans owned')
      obtain rfl := Option.some.inj (there.symm.trans there')
      exact ⟨rest, rfl, outer⟩

/-- The ancestry of a block consists of what encloses it. -/
theorem mem_iff (forest : module.Forest) (ancestry : module.Ancestry block chain) {id : OpId} :
    id ∈ chain ↔ module.Encloses id block := by
  constructor
  · intro member
    induction ancestry with
    | root => cases member
    | inner known owned there _ ih =>
        obtain ⟨op, there', region⟩ := forest.owner known owned
        obtain rfl := Option.some.inj (there.symm.trans there')
        rcases List.mem_cons.mp member with rfl | outer
        · exact .region there region
        · exact .inner (ih outer) there region
  · intro encloses
    induction encloses generalizing chain with
    | region there region =>
        obtain ⟨-, found, known, owned⟩ := forest.region there _ region
        obtain ⟨rest, rfl, -⟩ := ancestry.eq_cons known owned there
        exact List.mem_cons_self
    | inner _ there region ih =>
        obtain ⟨-, found, known, owned⟩ := forest.region there _ region
        obtain ⟨rest, rfl, outer⟩ := ancestry.eq_cons known owned there
        exact List.mem_cons_of_mem _ (ih outer)

/-- What follows an operation in an ancestry is the ancestry of the block that lists it. -/
theorem behind {front back : List OpId} {id : OpId}
    (ancestry : module.Ancestry block (front ++ id :: back)) :
    ∃ op, module.op? id = some op ∧ module.Ancestry op.parent back := by
  generalize split : front ++ id :: back = chain at ancestry
  induction ancestry generalizing front with
  | root => simp at split
  | inner known owned there outer ih =>
      cases front with
      | nil =>
          obtain ⟨rfl, rfl⟩ := List.cons.inj split
          exact ⟨_, there, outer⟩
      | cons first rest => exact ih (List.cons.inj split).2

/-- An ancestry is at most as long as the number that bounds the owner of the block. -/
theorem length_le (numbered : module.Numbered) (ancestry : module.Ancestry block chain)
    {found : Block} (known : module.block? block = some found) {bound : Nat}
    (below : ∀ owner, found.parent = some owner → owner.index < bound) :
    chain.length ≤ bound := by
  induction ancestry generalizing found bound with
  | root => exact Nat.zero_le _
  | inner known' owned there _ ih =>
      obtain rfl := Option.some.inj (known.symm.trans known')
      obtain ⟨around, listed, -⟩ := numbered.placed there
      have rest := ih listed fun owner owned' => numbered.owner_lt there listed owned'
      exact Nat.lt_of_le_of_lt rest (below _ owned)

/-- An ancestry has no more members than there are operations. -/
theorem length_le_size (numbered : module.Numbered) (ancestry : module.Ancestry block chain)
    (known : module.block? block = some found) : chain.length ≤ module.size := by
  refine ancestry.length_le numbered known fun owner owned => ?_
  obtain ⟨op, there, -⟩ := numbered.owner known owned
  exact index_lt_of_op? there

/-- With enough fuel for the ancestry, the look-up is a search in it. -/
theorem enclosingFrom_eq (ancestry : module.Ancestry block chain) (kind : OpKind) {fuel : Nat}
    (enough : chain.length ≤ fuel) :
    module.enclosingFrom kind fuel ((module.block? block).bind (·.parent)) =
      chain.find? fun id => (module.op? id).any (·.kind = kind) := by
  induction ancestry generalizing fuel with
  | root known owned =>
      rw [known, Option.bind_some, owned]
      cases fuel <;> rfl
  | @inner block found owner op chain known owned there _ ih =>
      cases fuel with
      | zero => simp at enough
      | succ fuel =>
          have rest := ih (Nat.le_of_succ_le_succ enough)
          rw [known, Option.bind_some, owned]
          by_cases same : op.kind = kind
          · simp [enclosingFrom, there, same]
          · simp [enclosingFrom, there, same, rest]

end Ancestry

theorem ofKind_iff {kind : OpKind} {id : OpId} :
    module.OfKind kind id ↔ (module.op? id).any (·.kind = kind) = true := by
  simp [OfKind, Option.any_eq_true]

/-- Of the operations of a kind around a block there is one innermost one at most. -/
theorem Numbered.innermost_unique (numbered : module.Numbered) {kind : OpKind} {block : BlockId}
    {first second : OpId} (one : module.Innermost kind block first)
    (other : module.Innermost kind block second) : first = second := by
  rcases one.2.2 second other.1 other.2.1 with rfl | outer
  · rfl
  · rcases other.2.2 first one.1 one.2.1 with rfl | inner
    · rfl
    · exact absurd (numbered.holds_lt inner) (Nat.lt_asymm (numbered.holds_lt outer))

section Search

variable (numbered : module.Numbered) {block : BlockId} {chain : List OpId}
  (known : module.block? block = some found) (ancestry : module.Ancestry block chain)
include numbered known ancestry

/-- The look-up of an enclosing operation is a search in the ancestry. -/
theorem Ancestry.enclosing?_eq (kind : OpKind) :
    module.enclosing? block kind = chain.find? fun id => (module.op? id).any (·.kind = kind) :=
  ancestry.enclosingFrom_eq kind (ancestry.length_le_size numbered known)

theorem Ancestry.innermost_of_enclosing? {kind : OpKind} {id : OpId}
    (searched : module.enclosing? block kind = some id) : module.Innermost kind block id := by
  rw [ancestry.enclosing?_eq numbered known, List.find?_eq_some_iff_append] at searched
  obtain ⟨right, front, back, rfl, wrong⟩ := searched
  have encloses : module.Encloses id block := (ancestry.mem_iff numbered.toForest).mp (by simp)
  obtain ⟨op, there, outer⟩ := ancestry.behind
  refine ⟨encloses, ofKind_iff.mpr right, fun other around likewise => ?_⟩
  rcases List.mem_append.mp ((ancestry.mem_iff numbered.toForest).mpr around) with inside | rest
  · -- What is further inside is of another kind.
    have different := wrong other inside
    rw [ofKind_iff.mp likewise] at different
    cases different
  · rcases List.mem_cons.mp rest with same | behind
    · exact .inl same
    · exact .inr ⟨op, there, (outer.mem_iff numbered.toForest).mp behind⟩

/-- The look-up yields the innermost operation of a kind around a block. -/
theorem Ancestry.enclosing?_eq_some_iff {kind : OpKind} {id : OpId} :
    module.enclosing? block kind = some id ↔ module.Innermost kind block id := by
  refine ⟨ancestry.innermost_of_enclosing? numbered known, fun innermost => ?_⟩
  have member := (ancestry.mem_iff numbered.toForest).mpr innermost.1
  have some : (module.enclosing? block kind).isSome := by
    rw [ancestry.enclosing?_eq numbered known, List.find?_isSome]
    exact ⟨id, member, ofKind_iff.mp innermost.2.1⟩
  obtain ⟨other, searched⟩ := Option.isSome_iff_exists.mp some
  have same := numbered.innermost_unique innermost
    (ancestry.innermost_of_enclosing? numbered known searched)
  rw [searched, same]

/-- The look-up yields nothing if no operation of the kind is around the block. -/
theorem Ancestry.enclosing?_eq_none_iff {kind : OpKind} :
    module.enclosing? block kind = none ↔
      ∀ id, module.Encloses id block → ¬ module.OfKind kind id := by
  rw [ancestry.enclosing?_eq numbered known, List.find?_eq_none]
  constructor
  · intro nowhere id encloses likewise
    exact nowhere id ((ancestry.mem_iff numbered.toForest).mpr encloses) (ofKind_iff.mp likewise)
  · intro nowhere id member likewise
    exact nowhere id ((ancestry.mem_iff numbered.toForest).mp member) (ofKind_iff.mpr likewise)

end Search

/-! ## The forest of numbers -/

/-- Of different numbers, each makes one item. -/
theorem count_numbers {α : Type} [DecidableEq α] {make : Nat → α} (injective : make.Injective)
    {numbers : List Nat} (distinct : numbers.Nodup) {number : Nat} (member : number ∈ numbers) :
    (numbers.map make).count (make number) = 1 :=
  List.count_eq_one_of_mem (distinct.map injective) (List.mem_map_of_mem member)

theorem Assembled.listsEachOnce (assembled : module.Assembled) : module.ListsEachOnce := by
  have perm := assembled.listedOps_perm
  refine ⟨fun id member => ?_, fun id small => ⟨?_, ?_⟩⟩
  · obtain ⟨index, small, rfl⟩ := List.mem_map.mp (perm.mem_iff.mp member)
    exact List.mem_range.mp small
  · rw [perm.count_eq, count_numbers (fun _ _ same => congrArg OpId.index same) List.nodup_range]
    exact List.mem_range.mpr small
  · have there : module.op? id = some module.ops[id.index] := Array.getElem?_eq_getElem small
    obtain ⟨found, known, member⟩ := assembled.numbered.placed there
    exact ⟨_, found, there, known, member⟩

/-- The body is there, and no operation owns it. -/
theorem Assembled.body_root (assembled : module.Assembled) :
    ∃ found, module.block? body = some found ∧ found.parent = none := by
  induction assembled with
  | empty => exact ⟨_, rfl, rfl⟩
  | create draft _ _ ih =>
      obtain ⟨found, known, root⟩ := ih
      obtain ⟨grown, grownKnown, same⟩ := block?_create_parent known
      exact ⟨grown, grownKnown, same.trans root⟩
  | setOperands id operands _ ih => exact ih

theorem Assembled.ownsEachOnce (assembled : module.Assembled) : module.OwnsEachOnce := by
  have owned := assembled.ownedBlocks_eq.2
  refine ⟨assembled.body_root, ?_, fun block other small => ?_⟩
  · rw [owned]
    intro member
    obtain ⟨index, inside, same⟩ := List.mem_map.mp member
    obtain rfl : index = 0 := congrArg BlockId.index same
    exact absurd (List.mem_range'_1.mp inside).1 (by omega)
  · have positive : 0 < block.index :=
      Nat.pos_of_ne_zero fun zero => other (congrArg BlockId.mk zero)
    have once : module.ownedBlocks.count block = 1 := by
      rw [owned]
      refine count_numbers (fun _ _ same => congrArg BlockId.index same) List.nodup_range' ?_
      exact List.mem_range'_1.mpr (by omega)
    refine ⟨once, ?_⟩
    have member : block ∈ module.ownedBlocks := List.count_pos_iff.mp (once ▸ Nat.one_pos)
    obtain ⟨op, inside, region⟩ := List.mem_flatMap.mp member
    obtain ⟨index, there⟩ := List.getElem?_of_mem inside
    have found : module.op? ⟨index⟩ = some op := by simpa [op?] using there
    obtain ⟨-, around, known, parent⟩ := assembled.forest.region found block region
    exact ⟨⟨index⟩, op, around, found, region, known, parent⟩

/-- However a module was assembled, it is a forest whose numbers tell the inside from the outside:
the blocks list every operation once, in its parent; the operations own every block but the body
once; what is inside an operation has a higher number; a creation only inserts the new operation
where it is told to; and climbing from any block ends at the body, so that the look-up of an
enclosing operation, with as much fuel as there are steps to climb, yields the innermost one. -/
theorem ids_form_forest (assembled : module.Assembled) :
    module.ListsEachOnce ∧ module.OwnsEachOnce ∧ module.OwnersFirst ∧
      (∀ (draft : OpDraft) (point : InsertionPoint) (found : Block),
        module.block? point.block = some found → module.Inserts draft point found) ∧
      ∀ (block : BlockId) (found : Block), module.block? block = some found →
        ∃ chain, module.Ancestry block chain ∧
          ∀ kind : OpKind,
            (∀ fuel, chain.length ≤ fuel →
              module.enclosingFrom kind fuel found.parent = module.enclosing? block kind) ∧
            (∀ id, module.enclosing? block kind = some id ↔ module.Innermost kind block id) ∧
            (module.enclosing? block kind = none ↔
              ∀ id, module.Encloses id block → ¬ module.OfKind kind id) := by
  have numbered := assembled.numbered
  refine ⟨assembled.listsEachOnce, assembled.ownsEachOnce, ?_, fun draft point found listed =>
    inserts_create listed, fun block found known => ?_⟩
  · intro id owner op found there known owned
    exact numbered.owner_lt there known owned
  · obtain ⟨chain, ancestry⟩ := numbered.toForest.exists_ancestry known
    refine ⟨chain, ancestry, fun kind => ⟨fun fuel enough => ?_,
      fun id => ancestry.enclosing?_eq_some_iff numbered known,
      ancestry.enclosing?_eq_none_iff numbered known⟩⟩
    have climbed := ancestry.enclosingFrom_eq kind enough
    rw [known, Option.bind_some] at climbed
    rw [climbed, ancestry.enclosing?_eq numbered known]

/-- A function with a loop, a constant put before the loop, and a sum in the loop that was to stand
before the function, whose operands were replaced afterwards. -/
def prependedConstant : Module :=
  let func := (empty.create { kind := .func, regions := [[]] } (.atEnd body)).2
  let loop := (func.create { kind := .affineFor, regions := [[.scalar .index]] } (.atEnd ⟨1⟩)).2
  let constant := (loop.create { kind := .constant, results := [.scalar .index] }
    ⟨⟨1⟩, some ⟨1⟩⟩).2
  let sum := (constant.create
    { kind := .addI, operands := [.arg ⟨2⟩ 0, .arg ⟨2⟩ 0], results := [.scalar .index] }
    ⟨⟨2⟩, some ⟨0⟩⟩).2
  sum.setOperands ⟨3⟩ [.arg ⟨2⟩ 0, .result ⟨2⟩ 0]

theorem prependedConstant_assembled : prependedConstant.Assembled :=
  .setOperands _ _ (.create _ (.create _ (.create _ (.create _ .empty rfl) rfl) rfl) rfl)

theorem prependedConstant_forms_forest :
    prependedConstant.Assembled ∧
      prependedConstant.listedOps = [⟨0⟩, ⟨2⟩, ⟨1⟩, ⟨3⟩] ∧ prependedConstant.ListsEachOnce ∧
      prependedConstant.OwnsEachOnce ∧ prependedConstant.OwnersFirst ∧
      prependedConstant.Inserts { kind := .ret } ⟨⟨1⟩, some ⟨1⟩⟩ ⟨[], [⟨2⟩, ⟨1⟩], some ⟨0⟩⟩ ∧
      prependedConstant.Innermost .func ⟨2⟩ ⟨0⟩ ∧
      ∀ id, prependedConstant.Encloses id ⟨2⟩ → ¬ prependedConstant.OfKind .affineIf id := by
  obtain ⟨lists, owns, first, inserts, climbs⟩ := ids_form_forest prependedConstant_assembled
  obtain ⟨chain, -, found⟩ := climbs ⟨2⟩ _ rfl
  exact ⟨prependedConstant_assembled, rfl, lists, owns, first, inserts _ _ _ rfl,
    ((found .func).2.1 ⟨0⟩).mp rfl, (found .affineIf).2.2.mp rfl⟩

end AffineKernel.Module
