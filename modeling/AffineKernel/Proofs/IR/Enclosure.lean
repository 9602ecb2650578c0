import AffineKernel.Proofs.IR.Dominance
import AffineKernel.Proofs.IR.Nesting

/-!
# What an operation encloses

Operations that are only ever created at ends of blocks stand in the order in
which they were made: a block lists them by their numbers, and an operation is
numbered after the one around it (`Module.Chronological`). In such a module
what is visible to an operation was made before it (`Visible.older`), and what
the operation encloses was made after it. So a value that is visible inside an
operation, and that was made after the operation, is defined inside of it
(`Visible.inside`).
-/

set_option autoImplicit false

namespace AffineKernel

/-- The operation of a value is among the first `ops` ones, or its block among the first `blocks`
ones. -/
def Value.Older (ops blocks : Nat) : Value → Prop
  | .result op _ => op.index < ops
  | .arg block _ => block.index < blocks

namespace Module

/-- Operations are listed in the order in which they were made, and after the operation around
them. -/
structure Chronological (module : Module) : Prop extends module.Forest where
  placed : ∀ {id : OpId} {op : Operation}, module.op? id = some op →
    ∃ found, module.block? op.parent = some found ∧ id ∈ found.ops
  sorted : ∀ {block : BlockId} {found : Block}, module.block? block = some found →
    found.ops.Pairwise fun first second => first.index < second.index
  inner : ∀ {block : BlockId} {found : Block} {owner : OpId}, module.block? block = some found →
    found.parent = some owner → ∀ id ∈ found.ops, owner.index < id.index

theorem Chronological.numbered {module : Module} (chronological : module.Chronological) :
    module.Numbered where
  toForest := chronological.toForest
  placed := chronological.placed
  inner := chronological.inner

theorem chronological_empty : empty.Chronological where
  toForest := forest_empty
  placed := numbered_empty.placed
  sorted := by
    intro block found known
    have bound := index_lt_of_block? known
    obtain ⟨index⟩ := block
    obtain rfl : index = 0 := by simpa [empty] using bound
    obtain rfl : (⟨[], [], none⟩ : Block) = found := Option.some.inj known
    exact .nil
  inner := numbered_empty.inner

section Creation

variable {module : Module} {draft : OpDraft} {point : InsertionPoint} {found : Block}

/-- A block of the grown module: what it lists is old, but for the new operation at its end. -/
theorem ops_of_block?_create (listed : module.block? point.block = some found)
    (atEnd : point.before = none) {block : BlockId} {grown : Block}
    (known : (module.create draft point).2.block? block = some grown) :
    (∃ old, module.block? block = some old ∧ grown.parent = old.parent ∧
        (grown.ops = old.ops ∨
          block = point.block ∧ grown.ops = old.ops ++ [⟨module.ops.size⟩])) ∨
      grown.parent = some ⟨module.ops.size⟩ ∧ grown.ops = [] := by
  rcases block?_of_block?_create known with ⟨old, oldKnown, -, parent, ops⟩ | ⟨new, parent⟩
  · refine .inl ⟨old, oldKnown, parent, ?_⟩
    rcases ops with same | ⟨here, same⟩
    · exact .inl same
    · rw [atEnd, place_none] at same
      exact .inr ⟨here, same⟩
  · have bound := index_lt_of_block? known
    rw [blocks_size_create] at bound
    obtain ⟨made, madeKnown, -, none⟩ :=
      block?_create_fresh listed (mem_freshBlocks.mpr ⟨new, bound⟩)
    obtain rfl : grown = made := Option.some.inj (known.symm.trans madeKnown)
    exact .inr ⟨parent, none⟩

theorem Chronological.create (chronological : module.Chronological)
    (listed : module.block? point.block = some found) (atEnd : point.before = none) :
    (module.create draft point).2.Chronological := by
  have small : ∀ {block : BlockId} {old : Block}, module.block? block = some old →
      ∀ id ∈ old.ops, id.index < module.ops.size := by
    intro block old known id member
    obtain ⟨op, there, -⟩ := chronological.listed known id member
    exact index_lt_of_op? there
  have numbered : (module.create draft point).2.Numbered := chronological.numbered.create listed
  refine ⟨numbered.toForest, numbered.placed, fun {block grown} known => ?_, numbered.inner⟩
  rcases ops_of_block?_create listed atEnd known with
    ⟨old, oldKnown, -, same | ⟨-, same⟩⟩ | ⟨-, none⟩
  · exact same ▸ chronological.sorted oldKnown
  · rw [same, List.pairwise_append]
    refine ⟨chronological.sorted oldKnown, List.pairwise_singleton _ _, ?_⟩
    intro first member second last
    obtain rfl := List.mem_singleton.mp last
    exact small oldKnown first member
  · rw [none]
    exact .nil

end Creation

/-! ## Enclosed blocks -/

/-- The blocks inside of an operation. -/
inductive Encloses (module : Module) (outer : OpId) : BlockId → Prop where
  | region {op : Operation} {block : BlockId} :
      module.op? outer = some op → block ∈ op.regions → Encloses module outer block
  | inner {id : OpId} {op : Operation} {block : BlockId} :
      Encloses module outer op.parent → module.op? id = some op → block ∈ op.regions →
      Encloses module outer block

/-- An operation in a block inside of another one. -/
def Holds (module : Module) (outer id : OpId) : Prop :=
  ∃ op, module.op? id = some op ∧ module.Encloses outer op.parent

/-- The block that defines a value. -/
def home? (module : Module) : Value → Option BlockId
  | .result op _ => (module.op? op).map Operation.parent
  | .arg block _ => some block

/-- A value that is defined inside of an operation. -/
def Inside (module : Module) (outer : OpId) : Value → Prop
  | .result op _ => module.Holds outer op
  | .arg block _ => module.Encloses outer block

/-- The operations inside of an operation use a value from outside of it. -/
def Borrows (module : Module) (outer : OpId) (value : Value) : Prop :=
  ¬ module.Inside outer value ∧
    ∃ id op, module.Holds outer id ∧ module.op? id = some op ∧ value ∈ op.operands

/-- A block inside of an operation comes after the block around the operation. -/
theorem Encloses.after {module : Module} (forest : module.Forest) {outer : OpId}
    {outerOp : Operation} (outerThere : module.op? outer = some outerOp) {block : BlockId}
    (encloses : module.Encloses outer block) : outerOp.parent.index < block.index := by
  induction encloses with
  | region there member =>
      obtain rfl := Option.some.inj (outerThere.symm.trans there)
      exact (forest.region there _ member).1
  | inner _ there member ih => exact Nat.lt_trans ih (forest.region there _ member).1

/-- What encloses a region is its operation, or it encloses the block of the operation. -/
theorem Forest.encloses_region {module : Module} (forest : module.Forest) {id outer : OpId}
    {op : Operation} {block : BlockId} (there : module.op? id = some op) (member : block ∈ op.regions)
    (encloses : module.Encloses outer block) : outer = id ∨ module.Encloses outer op.parent := by
  cases encloses with
  | region known listed => exact .inl (forest.region_unique known listed there member)
  | inner deeper known listed =>
      obtain rfl := forest.region_unique known listed there member
      obtain rfl := Option.some.inj (known.symm.trans there)
      exact .inr deeper

/-- An operation inside of another one is numbered after it. -/
theorem Numbered.holds_lt {module : Module} (numbered : module.Numbered) {outer id : OpId}
    (holds : module.Holds outer id) : outer.index < id.index := by
  obtain ⟨op, there, encloses⟩ := holds
  obtain ⟨parent, same⟩ : ∃ parent, op.parent = parent := ⟨_, rfl⟩
  rw [same] at encloses
  induction encloses generalizing id op with
  | @region around block aroundThere member =>
      obtain ⟨found, known, owned⟩ := (numbered.region aroundThere _ member).2
      obtain ⟨listed, listedKnown, inside⟩ := numbered.placed there
      rw [same] at listedKnown
      obtain rfl := Option.some.inj (known.symm.trans listedKnown)
      exact numbered.inner known owned id inside
  | @inner around aroundOp block _ aroundThere member ih =>
      obtain ⟨found, known, owned⟩ := (numbered.region aroundThere _ member).2
      obtain ⟨listed, listedKnown, inside⟩ := numbered.placed there
      rw [same] at listedKnown
      obtain rfl := Option.some.inj (known.symm.trans listedKnown)
      exact Nat.lt_trans (ih aroundOp aroundThere rfl) (numbered.inner known owned id inside)

section Order

variable {module : Module} {outer : OpId} {outerOp : Operation}
  (chronological : module.Chronological)
include chronological

/-- What an operation may use was made before it, and before the regions inside of its block. -/
theorem Visible.older {id : OpId} {value : Value} (visible : module.Visible id value)
    {op : Operation} (there : module.op? id = some op) {ops blocks : Nat} (before : id.index ≤ ops)
    (outside : op.parent.index < blocks) : value.Older ops blocks := by
  induction visible generalizing op with
  | arg position found =>
      obtain rfl := Option.some.inj (there.symm.trans found)
      exact outside
  | @result id earlier found block position known listed precedes =>
      obtain ⟨front, back, split, member⟩ := precedes
      have sorted := chronological.sorted listed
      rw [split, List.pairwise_append] at sorted
      exact Nat.lt_of_lt_of_le (sorted.2.2 earlier member id (by simp)) before
  | @outer id owner found block value known listed owned _ ih =>
      obtain rfl := Option.some.inj (there.symm.trans known)
      obtain ⟨around, aroundThere, region⟩ := chronological.owner listed owned
      obtain ⟨block', listed', member⟩ := chronological.placed known
      obtain rfl := Option.some.inj (listed.symm.trans listed')
      have first := chronological.inner listed owned id member
      have second := (chronological.region aroundThere _ region).1
      exact ih aroundThere (by omega) (by omega)

/-- An operation inside of another one comes after it. -/
theorem Holds.after {id : OpId} (holds : module.Holds outer id) : outer.index < id.index :=
  chronological.numbered.holds_lt holds

variable (outerThere : module.op? outer = some outerOp)
include outerThere

/-- A value inside of an operation is not visible to the operation. -/
theorem Inside.not_visible {value : Value} (inside : module.Inside outer value) :
    ¬ module.Visible outer value := by
  intro visible
  have older := visible.older chronological outerThere (Nat.le_refl _)
    (Nat.lt_succ_self outerOp.parent.index)
  cases value with
  | result op position =>
      have after := Holds.after chronological inside
      exact absurd older (Nat.not_lt_of_lt after)
  | arg block position =>
      have after := inside.after chronological.toForest outerThere
      exact absurd older (by simp only [Value.Older]; omega)

/-- What is visible inside of an operation was made before the operation, or it is defined
inside. -/
theorem Visible.inside {id : OpId} {value : Value} (visible : module.Visible id value)
    (holds : module.Holds outer id) {blocks : Nat} (outside : outerOp.parent.index < blocks)
    (made : ¬ value.Older outer.index blocks) : module.Inside outer value := by
  induction visible with
  | arg position found =>
      obtain ⟨op, there, encloses⟩ := holds
      obtain rfl := Option.some.inj (there.symm.trans found)
      exact encloses
  | result position found listed precedes =>
      obtain ⟨op, there, encloses⟩ := holds
      obtain rfl := Option.some.inj (there.symm.trans found)
      obtain ⟨front, back, split, member⟩ := precedes
      obtain ⟨earlier, earlierThere, parent⟩ := chronological.listed listed _
        (split ▸ List.mem_append_left _ member)
      exact ⟨earlier, earlierThere, parent ▸ encloses⟩
  | @outer id owner found block value known listed owned visible ih =>
      obtain ⟨op, there, encloses⟩ := holds
      obtain rfl := Option.some.inj (there.symm.trans known)
      -- The operation around is the one in question, or inside of it as well.
      have around : owner = outer ∨ module.Holds outer owner := by
        generalize same : op.parent = parent at encloses listed
        cases encloses with
        | region aroundThere member =>
            obtain ⟨known, listed', parent⟩ := (chronological.region aroundThere _ member).2
            obtain rfl := Option.some.inj (listed.symm.trans listed')
            exact .inl (Option.some.inj (owned.symm.trans parent))
        | @inner other aroundOp _ deeper aroundThere member =>
            obtain ⟨known, listed', parent⟩ := (chronological.region aroundThere _ member).2
            obtain rfl := Option.some.inj (listed.symm.trans listed')
            obtain rfl : owner = other := Option.some.inj (owned.symm.trans parent)
            exact .inr ⟨aroundOp, aroundThere, deeper⟩
      rcases around with rfl | deeper
      · exact absurd (visible.older chronological outerThere (Nat.le_refl _) outside) made
      · exact ih deeper made

end Order

end Module

end AffineKernel
