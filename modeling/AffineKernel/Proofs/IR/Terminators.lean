import AffineKernel.Proofs.IR.Enclosure
import AffineKernel.Proofs.IR.Signature

/-!
# Terminators

A function, a loop and a conditional own one region, and its block has to end in
an operation of a kind of its own: a return for a function, a yield for the
others. These are the terminators, and an operation is terminated when the only
terminator in the block of its region is the last operation there
(`Module.Terminated`).

A block that is still open, as some insertion point is in it, has no terminator.
`Module.Orderly` is this, together with what it needs to go on: no two insertion
points are in the same block, and wherever there is a terminator, it is the last
operation of its block. Creating an operation keeps it, if the insertion point
is given up with a terminator (`Orderly.create_plain`, `Orderly.create`).

That an operation is terminated need not be carried along. It is enough that its
block has a terminator of the right kind (`Module.Sealed`), which survives growth
whatever is created; in an orderly module the terminator must be the last
operation (`Orderly.terminated`).
-/

set_option autoImplicit false

namespace AffineKernel

namespace OpKind

/-- The kind of the operation that ends the region of an operation, if it owns one. -/
def terminator? : OpKind → Option OpKind
  | .func => some .ret
  | .affineFor | .affineIf => some .yield
  | _ => none

theorem isTerminator_of_terminator? {kind ending : OpKind} (ends : kind.terminator? = some ending) :
    ending.isTerminator = true := by
  cases kind <;> cases ends <;> rfl

theorem isTerminator_of_isPlain {kind : OpKind} (plain : kind.signature.isPlain = true) :
    kind.isTerminator = false := by
  cases kind <;> first | rfl | cases plain

theorem terminator?_of_isPlain {kind : OpKind} (plain : kind.signature.isPlain = true) :
    kind.terminator? = none := by
  cases kind <;> first | rfl | cases plain

end OpKind

namespace Module

/-- An operation that ends no region. -/
def Inner (module : Module) (id : OpId) : Prop :=
  ∃ op, module.op? id = some op ∧ op.kind.isTerminator = false

/-- The last operation of a block is of a kind, and the others are no terminators. -/
def EndsWith (module : Module) (block : BlockId) (kind : OpKind) : Prop :=
  ∃ found front last op, module.block? block = some found ∧ found.ops = front ++ [last] ∧
    module.op? last = some op ∧ op.kind = kind ∧ ∀ id ∈ front, module.Inner id

/-- An operation owns exactly one region, and the only terminator of its block is the last
operation, which is of the kind that ends such a region. -/
def Terminated (module : Module) (id : OpId) : Prop :=
  ∃ op block ending, module.op? id = some op ∧ op.regions = [block] ∧
    op.kind.terminator? = some ending ∧ module.EndsWith block ending

/-- An operation owns exactly one region, and somewhere in its block is an operation of the kind
that ends such a region. -/
def Sealed (module : Module) (id : OpId) : Prop :=
  ∃ op block ending found last endingOp, module.op? id = some op ∧ op.regions = [block] ∧
    op.kind.terminator? = some ending ∧ module.block? block = some found ∧ last ∈ found.ops ∧
    module.op? last = some endingOp ∧ endingOp.kind = ending

/-- A block without a terminator. -/
def Unended (module : Module) (block : BlockId) : Prop :=
  ∀ found, module.block? block = some found → ∀ id ∈ found.ops, module.Inner id

/-- Terminators are last in their blocks, blocks with an insertion point have none, and insertion
points are ends of different blocks. -/
structure Orderly (module : Module) (stack : List InsertionPoint) : Prop where
  ends : ∀ point ∈ stack, point.before = none
  blocks : ∀ point ∈ stack, ∃ found, module.block? point.block = some found
  distinct : (stack.map InsertionPoint.block).Nodup
  listed : ∀ {block : BlockId} {found : Block}, module.block? block = some found →
    ∀ id ∈ found.ops, ∃ op, module.op? id = some op
  last : ∀ {block : BlockId} {found : Block}, module.block? block = some found →
    ∀ id ∈ found.ops.dropLast, module.Inner id
  unended : ∀ point ∈ stack, module.Unended point.block

variable {module before after : Module} {receives : BlockId → Prop} {id : OpId}

/-! ## Growth -/

theorem Inner.of_grows (grows : Grows receives before after) (inner : before.Inner id) :
    after.Inner id := by
  obtain ⟨op, there, plain⟩ := inner
  exact ⟨op, grows.op? there, plain⟩

/-- A terminator stays in its block. -/
theorem Sealed.of_grows (grows : Grows receives before after) (closed : before.Sealed id) :
    after.Sealed id := by
  obtain ⟨op, block, ending, found, last, endingOp, there, regions, kind, listed, member, lastThere,
    ends⟩ := closed
  obtain ⟨added, grown, -⟩ := grows.block? listed
  exact ⟨op, block, ending, _, last, endingOp, grows.op? there, regions, kind, grown,
    List.mem_append_left _ member, grows.op? lastThere, ends⟩

/-- Creating an operation in the block of a region seals the operation that owns it, if it is of
the kind that ends such a region. -/
theorem sealed_create {draft : OpDraft} {point : InsertionPoint} {op : Operation} {found : Block}
    (there : module.op? id = some op) (regions : op.regions = [point.block])
    (ends : op.kind.terminator? = some draft.kind)
    (listed : module.block? point.block = some found) (atEnd : point.before = none) :
    (module.create draft point).2.Sealed id :=
  ⟨op, point.block, draft.kind, _, ⟨module.ops.size⟩, _, op?_create there, regions, ends,
    block?_create_atEnd listed atEnd, by simp, op?_create_self, rfl⟩

namespace Orderly

variable {stack rest : List InsertionPoint} {point : InsertionPoint} {draft : OpDraft}

/-- Where terminators are last in their blocks, one that is there is the last operation. -/
theorem terminated (orderly : module.Orderly stack) (closed : module.Sealed id) :
    module.Terminated id := by
  obtain ⟨op, block, ending, found, last, endingOp, there, regions, kind, listed, member, lastThere,
    ends⟩ := closed
  have final : last ∉ found.ops.dropLast := by
    intro early
    obtain ⟨other, otherThere, inner⟩ := orderly.last listed last early
    obtain rfl := Option.some.inj (lastThere.symm.trans otherThere)
    rw [ends, OpKind.isTerminator_of_terminator? kind] at inner
    cases inner
  have split := List.dropLast_concat_getLast (List.ne_nil_of_mem member)
  have same : found.ops.getLast (List.ne_nil_of_mem member) = last := by
    rw [← split, List.mem_append] at member
    rcases member with early | here
    · exact absurd early final
    · exact (List.mem_singleton.mp here).symm
  rw [same] at split
  exact ⟨op, block, ending, there, regions, kind, found, found.ops.dropLast, last, endingOp, listed,
    split.symm, lastThere, ends, orderly.last listed⟩

/-- The insertion points below are in other blocks. -/
theorem apart (orderly : module.Orderly (point :: rest)) :
    ∀ other ∈ rest, other.block ≠ point.block := by
  have distinct := orderly.distinct
  rw [List.map_cons, List.nodup_cons] at distinct
  exact fun other member same => distinct.1 (same ▸ List.mem_map_of_mem member)

/-- Fewer insertion points. -/
theorem sublist (orderly : module.Orderly stack) {fewer : List InsertionPoint}
    (sublist : fewer.Sublist stack) : module.Orderly fewer where
  ends point member := orderly.ends point (sublist.mem member)
  blocks point member := orderly.blocks point (sublist.mem member)
  distinct := orderly.distinct.sublist (sublist.map _)
  listed := orderly.listed
  last := orderly.last
  unended point member := orderly.unended point (sublist.mem member)

/-- An insertion point in a block without a terminator, where no other one is. -/
theorem push (orderly : module.Orderly stack) {block : BlockId} {found : Block}
    (known : module.block? block = some found)
    (new : ∀ point ∈ stack, point.block ≠ block) (unended : module.Unended block) :
    module.Orderly (.atEnd block :: stack) where
  ends point member := by
    rcases List.mem_cons.mp member with rfl | old
    · rfl
    · exact orderly.ends point old
  blocks point member := by
    rcases List.mem_cons.mp member with rfl | old
    · exact ⟨found, known⟩
    · exact orderly.blocks point old
  distinct := by
    rw [List.map_cons, List.nodup_cons]
    refine ⟨fun member => ?_, orderly.distinct⟩
    obtain ⟨point, inside, same⟩ := List.mem_map.mp member
    exact new point inside same
  listed := orderly.listed
  last := orderly.last
  unended point member := by
    rcases List.mem_cons.mp member with rfl | old
    · exact unended
    · exact orderly.unended point old

/-! ## Creation -/

/-- What a block lists after a creation: what it listed before, with the new operation last if it is
the block of the insertion point. -/
theorem ops_create (orderly : module.Orderly (point :: rest)) {block : BlockId} {grown : Block}
    (known : (module.create draft point).2.block? block = some grown) :
    grown.ops = [] ∨ ∃ old, module.block? block = some old ∧
      (grown.ops = old.ops ∨
        block = point.block ∧ grown.ops = old.ops ++ [⟨module.ops.size⟩]) := by
  obtain ⟨found, listed⟩ := orderly.blocks point List.mem_cons_self
  rcases ops_of_block?_create listed (orderly.ends point List.mem_cons_self) known with
    ⟨old, oldKnown, -, ops⟩ | ⟨-, none⟩
  · exact .inr ⟨old, oldKnown, ops⟩
  · exact .inl none

/-- A creation adds to the block of the current insertion point only. -/
theorem grows (orderly : module.Orderly (point :: rest)) (draft : OpDraft) :
    Grows (· = point.block) module (module.create draft point).2 :=
  grows_create (orderly.ends point List.mem_cons_self)

/-- Whatever is created, the insertion point may be given up then. -/
theorem create (orderly : module.Orderly (point :: rest)) :
    (module.create draft point).2.Orderly rest where
  ends other member := orderly.ends other (List.mem_cons_of_mem point member)
  blocks other member := by
    obtain ⟨found, known⟩ := orderly.blocks other (List.mem_cons_of_mem point member)
    obtain ⟨added, grown, -⟩ := (orderly.grows draft).block? known
    exact ⟨_, grown⟩
  distinct := (orderly.sublist (List.sublist_cons_self point rest)).distinct
  listed {block grown} known id member := by
    rcases ops_create orderly known with none | ⟨old, oldKnown, same | ⟨-, same⟩⟩
    · rw [none] at member
      cases member
    · obtain ⟨op, there⟩ := orderly.listed oldKnown id (same ▸ member)
      exact ⟨op, (orderly.grows draft).op? there⟩
    · rw [same, List.mem_append, List.mem_singleton] at member
      rcases member with early | rfl
      · obtain ⟨op, there⟩ := orderly.listed oldKnown id early
        exact ⟨op, (orderly.grows draft).op? there⟩
      · exact ⟨_, op?_create_self⟩
  last {block grown} known id member := by
    rcases ops_create orderly known with none | ⟨old, oldKnown, same | ⟨rfl, same⟩⟩
    · rw [none] at member
      cases member
    · exact (orderly.last oldKnown id (same ▸ member)).of_grows (orderly.grows draft)
    · -- What was last before is no longer, but the block had no terminator.
      rw [same, List.dropLast_concat] at member
      have inner := orderly.unended point List.mem_cons_self old oldKnown id member
      exact inner.of_grows (orderly.grows draft)
  unended other member grown known id listed := by
    obtain ⟨found, foundKnown⟩ := orderly.blocks other (List.mem_cons_of_mem point member)
    have kept := (orderly.grows draft).block?_of_not (orderly.apart other member) foundKnown
    obtain rfl := Option.some.inj (kept.symm.trans known)
    have inner := orderly.unended other (List.mem_cons_of_mem point member) found foundKnown id listed
    exact inner.of_grows (orderly.grows draft)

/-- An operation that is no terminator leaves the insertion point where it is. -/
theorem create_plain (orderly : module.Orderly (point :: rest))
    (plain : draft.kind.isTerminator = false) :
    (module.create draft point).2.Orderly (point :: rest) := by
  have atEnd := orderly.ends point List.mem_cons_self
  obtain ⟨found, listed⟩ := orderly.blocks point List.mem_cons_self
  have grown : (module.create draft point).2.block? point.block =
      some { found with ops := found.ops ++ [⟨module.ops.size⟩] } := block?_create_atEnd listed atEnd
  have same : InsertionPoint.atEnd point.block = point := by rw [InsertionPoint.atEnd, ← atEnd]
  have unended : (module.create draft point).2.Unended point.block := by
    intro block known id member
    obtain rfl := Option.some.inj (grown.symm.trans known)
    rcases List.mem_append.mp member with early | new
    · have inner := orderly.unended point List.mem_cons_self found listed id early
      exact inner.of_grows (orderly.grows draft)
    · obtain rfl := List.mem_singleton.mp new
      exact ⟨_, op?_create_self, plain⟩
  exact same ▸ orderly.create.push grown orderly.apart unended

/-- The block of the region of an operation that was just created is empty. -/
theorem unended_create (orderly : module.Orderly (point :: rest)) {args : List ValueType}
    {more : List (List ValueType)} (regions : draft.regions = args :: more) :
    (module.create draft point).2.Unended ⟨module.blocks.size⟩ := by
  obtain ⟨found, listed⟩ := orderly.blocks point List.mem_cons_self
  intro block known id member
  obtain rfl := Option.some.inj ((block?_create_region listed regions).symm.trans known)
  cases member

end Orderly

end Module

end AffineKernel
