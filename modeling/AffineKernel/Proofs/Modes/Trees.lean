import Mathlib.Data.List.Forall2
import AffineKernel.Proofs.IR.Nesting
import AffineKernel.Proofs.IR.Signature
import AffineKernel.Proofs.Modes.Pairs

/-!
# Modules that differ in pure operations

An operation is *pure* if it does nothing but compute a scalar: from its
operands, or from an element of the buffer of a tensor. All other operations
act: they allocate, store, read what a reduction has accumulated, branch, repeat
or end a block.

The tree of a value says where it comes from, down to arguments of blocks and
results of acting operations (`Module.Shows`); an acting operation is known by
its rank, its number among the operations that act. Values of two modules with
the same tree are twins: they are computed alike, though the operations that
compute them may be elsewhere.

`Module.Parallel` says of two modules that they have the same blocks, and that
in each block the same operations act, in the same order and on twins. Which
pure operations there are, and where, may differ. A pure operation more in one
of the modules is not noticed (`Parallel.create_left`), and the same operation
may be created in both of them (`Parallel.create_both`), at the same place: at
the end of a block, or before operations that act (`SamePlace`).
-/

set_option autoImplicit false

namespace AffineKernel

/-! ## Operations that act -/

/-- Whether operations of a kind only compute a scalar. A tensor is accessed with a map of loop
variables, and an accumulator by a symbol. -/
def OpKind.isPure (kind : OpKind) (attributes : List (String × Attribute)) : Bool :=
  match kind with
  | .func | .ret | .yield | .call | .alloc | .store | .affineFor | .affineIf => false
  | .load => ((attributes.lookup "map").bind Attribute.asMap?).any fun map => map.symbols = 0
  | _ => true

def Operation.isPure (op : Operation) : Bool := op.kind.isPure op.attributes

def OpDraft.isPure (draft : OpDraft) : Bool := draft.kind.isPure draft.attributes

namespace Module

variable {module other before after : Module}

/-- Whether the operation with a number is there and acts. -/
def acts (module : Module) (index : Nat) : Bool :=
  (module.op? ⟨index⟩).any fun op => !op.isPure

/-- How many operations act among those with smaller numbers. -/
def rank (module : Module) (index : Nat) : Nat := (List.range index).countP module.acts

theorem acts_iff {id : OpId} {op : Operation} (found : module.op? id = some op) :
    module.acts id.index = !op.isPure := by
  have found : module.op? ⟨id.index⟩ = some op := found
  rw [acts, found]
  rfl

theorem rank_succ (index : Nat) :
    module.rank (index + 1) = module.rank index + if module.acts index then 1 else 0 := by
  simp [rank, List.range_succ, List.countP_append, List.countP_singleton]

theorem rank_le {first second : Nat} (le : first ≤ second) :
    module.rank first ≤ module.rank second := by
  induction le with
  | refl => exact Nat.le_refl _
  | step _ ih =>
      rw [rank_succ]
      omega

theorem rank_lt {first second : Nat} (acts : module.acts first = true) (lt : first < second) :
    module.rank first < module.rank second := by
  have next : module.rank (first + 1) ≤ module.rank second := rank_le lt
  rw [rank_succ, if_pos acts] at next
  omega

/-- Operations that act are told apart by their ranks. -/
theorem rank_injective {first second : Nat} (acts : module.acts first = true)
    (alsoActs : module.acts second = true) (same : module.rank first = module.rank second) :
    first = second := by
  rcases Nat.lt_trichotomy first second with less | equal | greater
  · have := rank_lt acts less
    omega
  · exact equal
  · have := rank_lt alsoActs greater
    omega

theorem Retains.acts (retains : before.Retains after) {index : Nat}
    (old : index < before.ops.size) : after.acts index = before.acts index := by
  obtain ⟨op, found⟩ : ∃ op, before.op? ⟨index⟩ = some op := ⟨_, Array.getElem?_eq_getElem old⟩
  rw [Module.acts, Module.acts, found, retains.op? found]

theorem Retains.rank (retains : before.Retains after) {index : Nat}
    (old : index ≤ before.ops.size) : after.rank index = before.rank index := by
  refine List.countP_congr fun position listed => ?_
  rw [retains.acts (Nat.lt_of_lt_of_le (List.mem_range.mp listed) old)]

theorem Retains.block_small (retains : before.Retains after) {block : BlockId}
    (small : block.index < before.blocks.size) : block.index < after.blocks.size := by
  have known : before.block? block = some before.blocks[block.index] :=
    Array.getElem?_eq_getElem small
  obtain ⟨found, there, -⟩ :=
    Option.map_eq_some_iff.mp (retains.args (congrArg (Option.map Block.args) known))
  exact index_lt_of_block? there

/-- The operations of a list that act. -/
def effects (module : Module) (ops : List OpId) : List OpId :=
  ops.filter fun id => module.acts id.index

theorem Retains.effects (retains : before.Retains after) {ops : List OpId}
    (old : ∀ id ∈ ops, id.index < before.ops.size) : after.effects ops = before.effects ops :=
  List.filter_congr fun id listed => retains.acts (old id listed)

end Module

/-! ## Trees of values -/

/-- Where a value comes from. -/
inductive Tree where
  /-- An argument of a block. -/
  | arg (block : BlockId) (position : Nat)
  /-- The result of an operation that acts. -/
  | act (rank : Nat) (results : List ValueType)
  /-- The result of a pure operation. -/
  | pure (kind : OpKind) (attributes : List (String × Attribute)) (results : List ValueType)
      (operands : List Tree)

namespace Module

variable {module other before after : Module}

mutual

/-- A value of a module has a tree. -/
def Shows (module : Module) : Tree → Value → Prop
  | .arg block position, value =>
    value = .arg block position ∧ block.index < module.blocks.size
  | .act rank results, value => ∃ id op, value = .result id 0 ∧ module.op? id = some op ∧
    op.regions = [] ∧ op.isPure = false ∧ op.results = results ∧ module.rank id.index = rank
  | .pure kind attributes results operands, value => ∃ id op, value = .result id 0 ∧
    module.op? id = some op ∧ op.regions = [] ∧ op.isPure = true ∧ op.kind = kind ∧
    op.attributes = attributes ∧ op.results = results ∧ ShowsAll module operands op.operands

/-- Values of a module have trees, one by one. -/
def ShowsAll (module : Module) : List Tree → List Value → Prop
  | [], values => values = []
  | tree :: trees, values => ∃ value rest, values = value :: rest ∧ Shows module tree value ∧
    ShowsAll module trees rest

end

mutual

/-- Trees survive growth. -/
theorem Retains.shows (retains : before.Retains after) : ∀ (tree : Tree) {value : Value},
    before.Shows tree value → after.Shows tree value
  | .arg block position, value, shows_ => by
      obtain ⟨same, old⟩ := shows_
      exact ⟨same, retains.block_small old⟩
  | .act rank results, value, shows_ => by
      obtain ⟨id, op, same, found, flat, acts, typed, ranked⟩ := shows_
      refine ⟨id, op, same, retains.op? found, flat, acts, typed, ?_⟩
      rw [retains.rank (Nat.le_of_lt (index_lt_of_op? found)), ranked]
  | .pure kind attributes results operands, value, shows_ => by
      obtain ⟨id, op, same, found, flat, pure, kinds, attrs, typed, all⟩ := shows_
      exact ⟨id, op, same, retains.op? found, flat, pure, kinds, attrs, typed,
        retains.showsAll operands all⟩

theorem Retains.showsAll (retains : before.Retains after) : ∀ (trees : List Tree)
    {values : List Value}, before.ShowsAll trees values → after.ShowsAll trees values
  | [], values, shows_ => shows_
  | tree :: trees, values, shows_ => by
      obtain ⟨value, rest, same, first, others⟩ := shows_
      exact ⟨value, rest, same, retains.shows tree first, retains.showsAll trees others⟩

end

mutual

/-- A value has one tree. -/
theorem Shows.unique : ∀ (tree second : Tree) {value : Value}, module.Shows tree value →
    module.Shows second value → tree = second
  | .arg block position, .arg _ _, _, ⟨rfl, _⟩, ⟨same, _⟩ => by
      cases same
      rfl
  | .arg block position, .act _ _, _, ⟨rfl, _⟩, again => by
      obtain ⟨id, op, same, -⟩ := again
      cases same
  | .arg block position, .pure _ _ _ _, _, ⟨rfl, _⟩, again => by
      obtain ⟨id, op, same, -⟩ := again
      cases same
  | .act rank results, .arg _ _, _, shows_, ⟨rfl, _⟩ => by
      obtain ⟨id, op, same, -⟩ := shows_
      cases same
  | .act rank results, .act _ _, _, shows_, again => by
      obtain ⟨id, op, rfl, found, -, -, rfl, rfl⟩ := shows_
      obtain ⟨id', op', same, found', -, -, rfl, rfl⟩ := again
      cases same
      cases found.symm.trans found'
      rfl
  | .act rank results, .pure _ _ _ _, _, shows_, again => by
      obtain ⟨id, op, rfl, found, -, acts, -⟩ := shows_
      obtain ⟨id', op', same, found', -, pure, -⟩ := again
      cases same
      cases found.symm.trans found'
      rw [acts] at pure
      cases pure
  | .pure kind attributes results operands, .arg _ _, _, shows_, ⟨rfl, _⟩ => by
      obtain ⟨id, op, same, -⟩ := shows_
      cases same
  | .pure kind attributes results operands, .act _ _, _, shows_, again => by
      obtain ⟨id, op, rfl, found, -, pure, -⟩ := shows_
      obtain ⟨id', op', same, found', -, acts, -⟩ := again
      cases same
      cases found.symm.trans found'
      rw [acts] at pure
      cases pure
  | .pure kind attributes results operands, .pure _ _ _ others, _, shows_, again => by
      obtain ⟨id, op, rfl, found, -, -, rfl, rfl, rfl, all⟩ := shows_
      obtain ⟨id', op', same, found', -, -, rfl, rfl, rfl, all'⟩ := again
      cases same
      cases found.symm.trans found'
      rw [ShowsAll.unique operands others all all']

theorem ShowsAll.unique : ∀ (trees seconds : List Tree) {values : List Value},
    module.ShowsAll trees values → module.ShowsAll seconds values → trees = seconds
  | [], [], _, _, _ => rfl
  | [], _ :: _, _, rfl, again => by
      obtain ⟨value, rest, same, -⟩ := again
      cases same
  | _ :: _, [], _, shows_, rfl => by
      obtain ⟨value, rest, same, -⟩ := shows_
      cases same
  | tree :: trees, second :: seconds, _, shows_, again => by
      obtain ⟨value, rest, rfl, first, others⟩ := shows_
      obtain ⟨value', rest', same, first', others'⟩ := again
      cases same
      rw [Shows.unique tree second first first', ShowsAll.unique trees seconds others others']

end

/-- The result of an operation with a tree: the operation has no regions. -/
theorem Shows.flat {tree : Tree} {id : OpId} {position : Nat}
    (shows_ : module.Shows tree (.result id position)) (region : Nat) :
    module.region? id region = none := by
  cases tree with
  | arg block place =>
      obtain ⟨same, -⟩ := shows_
      cases same
  | act rank results =>
      obtain ⟨_, op, same, found, flat, -⟩ := shows_
      cases same
      simp [region?, found, flat]
  | pure kind attributes results operands =>
      obtain ⟨_, op, same, found, flat, -⟩ := shows_
      cases same
      simp [region?, found, flat]

theorem ShowsAll.length : ∀ {trees : List Tree} {values : List Value},
    module.ShowsAll trees values → trees.length = values.length
  | [], _, rfl => rfl
  | _ :: _, _, ⟨_, _, rfl, _, rest⟩ => congrArg (· + 1) (ShowsAll.length rest)

theorem ShowsAll.head {tree : Tree} {trees : List Tree} {value : Value} {values : List Value}
    (shows_ : module.ShowsAll (tree :: trees) (value :: values)) : module.Shows tree value := by
  obtain ⟨_, _, same, first, -⟩ := shows_
  cases same
  exact first

/-- Values of two modules that have the same tree. -/
def Twins (module other : Module) (value partner : Value) : Prop :=
  ∃ tree, module.Shows tree value ∧ other.Shows tree partner

theorem Twins.symm {value partner : Value} (twins : Twins module other value partner) :
    Twins other module partner value := by
  obtain ⟨tree, left, right⟩ := twins
  exact ⟨tree, right, left⟩

theorem Twins.grow {grown wider : Module} {value partner : Value}
    (twins : Twins module other value partner) (retains : module.Retains grown)
    (also : other.Retains wider) : Twins grown wider value partner := by
  obtain ⟨tree, left, right⟩ := twins
  exact ⟨tree, retains.shows tree left, also.shows tree right⟩

/-- Lists of twins have the same trees. -/
theorem exists_trees {values partners : List Value}
    (twins : List.Forall₂ (Twins module other) values partners) :
    ∃ trees, module.ShowsAll trees values ∧ other.ShowsAll trees partners := by
  induction twins with
  | nil => exact ⟨[], rfl, rfl⟩
  | @cons value partner rest others first _ ih =>
      obtain ⟨tree, left, right⟩ := first
      obtain ⟨trees, lefts, rights⟩ := ih
      exact ⟨tree :: trees, ⟨value, rest, rfl, left, lefts⟩, ⟨partner, others, rfl, right, rights⟩⟩

theorem ShowsAll.twins : ∀ {trees : List Tree} {values partners : List Value},
    module.ShowsAll trees values → other.ShowsAll trees partners →
    List.Forall₂ (Twins module other) values partners
  | [], _, _, rfl, rfl => .nil
  | tree :: _, _, _, ⟨_, _, rfl, first, rest⟩, ⟨_, _, rfl, first', rest'⟩ =>
      .cons ⟨tree, first, first'⟩ (ShowsAll.twins rest rest')

/-! ## Parallel modules -/

/-- Operations of two modules that act, and have the same rank. -/
structure Peers (module other : Module) (id partner : OpId) : Prop where
  left : module.acts id.index = true
  right : other.acts partner.index = true
  rank : module.rank id.index = other.rank partner.index

theorem index_lt_of_acts {index : Nat} (acts : module.acts index = true) :
    index < module.ops.size := by
  rw [Module.acts, Option.any_eq_true] at acts
  obtain ⟨op, found, -⟩ := acts
  exact index_lt_of_op? found

namespace Peers

variable {id partner : OpId}

theorem symm (peers : Peers module other id partner) : Peers other module partner id :=
  ⟨peers.right, peers.left, peers.rank.symm⟩

theorem grow {grown wider : Module} (peers : Peers module other id partner)
    (retains : module.Retains grown) (also : other.Retains wider) :
    Peers grown wider id partner := by
  have small := index_lt_of_acts peers.left
  have alsoSmall := index_lt_of_acts peers.right
  refine ⟨?_, ?_, ?_⟩
  · rw [retains.acts small, peers.left]
  · rw [also.acts alsoSmall, peers.right]
  · rw [retains.rank (Nat.le_of_lt small), also.rank (Nat.le_of_lt alsoSmall), peers.rank]

/-- The peer of an operation is one operation. -/
theorem eq_of_eq {second : OpId} (first : Peers module other id partner)
    (again : Peers module other id second) : partner = second :=
  congrArg OpId.mk (rank_injective first.right again.right (first.rank.symm.trans again.rank))

end Peers

/-- Operations whose results are twins are peers, if one of them acts. -/
theorem Twins.peers {id partner : OpId} {position place : Nat}
    (twins : Twins module other (.result id position) (.result partner place))
    (acts : module.acts id.index = true) : Peers module other id partner := by
  obtain ⟨tree, left, right⟩ := twins
  cases tree with
  | arg block position => cases left.1
  | act rank results =>
      obtain ⟨_, op, same, -, -, -, -, ranked⟩ := left
      obtain ⟨_, mate, also, known, -, alsoActs, -, alsoRanked⟩ := right
      cases same
      cases also
      exact ⟨acts, by rw [acts_iff known, alsoActs]; rfl, ranked.trans alsoRanked.symm⟩
  | pure kind attributes results operands =>
      obtain ⟨_, op, same, found, -, pure, -⟩ := left
      cases same
      rw [acts_iff found, pure] at acts
      cases acts

/-- Operations of two modules that are peers, with the same regions. -/
structure Siblings (module other : Module) (id partner : OpId) : Prop where
  peers : Peers module other id partner
  regions : ∃ op mate, module.op? id = some op ∧ other.op? partner = some mate ∧
    op.regions = mate.regions

theorem Siblings.grow {grown wider : Module} {id partner : OpId}
    (siblings : Siblings module other id partner) (retains : module.Retains grown)
    (also : other.Retains wider) : Siblings grown wider id partner := by
  obtain ⟨op, mate, found, known, same⟩ := siblings.regions
  exact ⟨siblings.peers.grow retains also, op, mate, retains.op? found, also.op? known, same⟩

theorem Siblings.region?_eq {id partner : OpId} (siblings : Siblings module other id partner)
    (position : Nat) : module.region? id position = other.region? partner position := by
  obtain ⟨op, mate, found, known, same⟩ := siblings.regions
  simp [region?, found, known, same]

/-- Operations of two modules that act alike, on twins. -/
structure Mates (module other : Module) (id partner : OpId) : Prop where
  ops : ∃ op mate, module.op? id = some op ∧ other.op? partner = some mate ∧
    op.isPure = false ∧ op.kind = mate.kind ∧ op.attributes = mate.attributes ∧
    op.results = mate.results ∧ op.regions = mate.regions ∧
    List.Forall₂ (Twins module other) op.operands mate.operands
  rank : module.rank id.index = other.rank partner.index

theorem Mates.symm {id partner : OpId} (mates : Mates module other id partner) :
    Mates other module partner id := by
  obtain ⟨op, mate, found, known, acts, kind, attributes, results, regions, operands⟩ := mates.ops
  refine ⟨⟨mate, op, known, found, ?_, kind.symm, attributes.symm, results.symm, regions.symm,
    operands.flip.imp fun _ _ twins => Twins.symm twins⟩, mates.rank.symm⟩
  rw [← acts, Operation.isPure, Operation.isPure, kind, attributes]

theorem Mates.grow {grown wider : Module} {id partner : OpId}
    (mates : Mates module other id partner) (retains : module.Retains grown)
    (also : other.Retains wider) : Mates grown wider id partner := by
  obtain ⟨op, mate, found, known, acts, kind, attributes, results, regions, operands⟩ := mates.ops
  refine ⟨⟨op, mate, retains.op? found, also.op? known, acts, kind, attributes, results, regions,
    operands.imp fun _ _ twins => twins.grow retains also⟩, ?_⟩
  rw [retains.rank (Nat.le_of_lt (index_lt_of_op? found)),
    also.rank (Nat.le_of_lt (index_lt_of_op? known)), mates.rank]

theorem Mates.peers {id partner : OpId} (mates : Mates module other id partner) :
    Peers module other id partner := by
  obtain ⟨op, mate, found, known, acts, kind, attributes, -⟩ := mates.ops
  have also : mate.isPure = false := by
    rw [← acts, Operation.isPure, Operation.isPure, kind, attributes]
  exact ⟨by rw [acts_iff found, acts]; rfl, by rw [acts_iff known, also]; rfl, mates.rank⟩

theorem Mates.siblings {id partner : OpId} (mates : Mates module other id partner) :
    Siblings module other id partner := by
  obtain ⟨op, mate, found, known, -, -, -, -, regions, -⟩ := mates.ops
  exact ⟨mates.peers, op, mate, found, known, regions⟩

/-- Modules with the same blocks, in which the same operations act. -/
structure Parallel (module other : Module) : Prop where
  left : module.Assembled
  right : other.Assembled
  size : module.blocks.size = other.blocks.size
  count : module.rank module.ops.size = other.rank other.ops.size
  block : ∀ {id : BlockId} {found partner : Block}, module.block? id = some found →
    other.block? id = some partner → found.args = partner.args ∧
      List.Forall₂ (Mates module other) (module.effects found.ops) (other.effects partner.ops)

namespace Parallel

theorem symm (parallel : Parallel module other) : Parallel other module where
  left := parallel.right
  right := parallel.left
  size := parallel.size.symm
  count := parallel.count.symm
  block found known := by
    obtain ⟨args, mates⟩ := parallel.block known found
    exact ⟨args.symm, mates.flip.imp fun _ _ mates => mates.symm⟩

theorem empty : Parallel Module.empty Module.empty where
  left := .empty
  right := .empty
  size := rfl
  count := rfl
  block := by
    intro id found partner known same
    obtain rfl := Option.some.inj (known.symm.trans same)
    have bound := index_lt_of_block? known
    obtain ⟨index⟩ := id
    obtain rfl : index = 0 := by simpa [Module.empty] using bound
    obtain rfl : (⟨[], [], none⟩ : Block) = found := Option.some.inj known
    exact ⟨rfl, .nil⟩

/-- A block of one module is one of the other. -/
theorem exists_block (parallel : Parallel module other) {id : BlockId} {found : Block}
    (known : module.block? id = some found) : ∃ partner, other.block? id = some partner := by
  have bound := index_lt_of_block? known
  rw [parallel.size] at bound
  exact ⟨_, Array.getElem?_eq_getElem bound⟩

end Parallel

/-! ## Places -/

/-- Insertion points of two modules in the same block: both at its end, or before peers. -/
structure SamePlace (module other : Module) (point place : InsertionPoint) : Prop where
  block : point.block = place.block
  small : point.block.index < module.blocks.size
  before : Option.Rel (Peers module other) point.before place.before

namespace SamePlace

variable {point place : InsertionPoint}

theorem atEnd {block : BlockId} (small : block.index < module.blocks.size) :
    SamePlace module other (.atEnd block) (.atEnd block) := ⟨rfl, small, .none⟩

theorem symm (same : SamePlace module other point place)
    (size : module.blocks.size = other.blocks.size) : SamePlace other module place point where
  block := same.block.symm
  small := by
    rw [← same.block, ← size]
    exact same.small
  before := by
    have before := same.before
    generalize point.before = first, place.before = second at before ⊢
    cases before with
    | none => exact .none
    | some peers => exact .some peers.symm

theorem grow {grown wider : Module} (same : SamePlace module other point place)
    (retains : module.Retains grown) (also : other.Retains wider) :
    SamePlace grown wider point place where
  block := same.block
  small := retains.block_small same.small
  before := by
    have before := same.before
    generalize point.before = first, place.before = second at before ⊢
    cases before with
    | none => exact .none
    | some peers => exact .some (peers.grow retains also)

/-- An operation to insert before acts. -/
theorem acts (same : SamePlace module other point place) {id : OpId}
    (before : point.before = some id) : module.acts id.index = true := by
  have both := same.before
  rw [before] at both
  generalize place.before = second at both
  cases both with
  | some peers => exact peers.left

end SamePlace

/-- Filtering an insertion before an operation that stays. -/
theorem filter_place {keeps : OpId → Bool} (new : OpId) {before : Option OpId}
    (stays : ∀ id, before = some id → keeps id = true) (ops : List OpId) :
    (place new before ops).filter keeps =
      if keeps new then place new before (ops.filter keeps) else ops.filter keeps := by
  induction ops with
  | nil => simp [place, List.filter_cons]
  | cons first rest ih =>
      by_cases here : before = some first
      · have kept := stays first here
        by_cases new' : keeps new = true <;> simp [place, here, kept, new']
      · by_cases kept : keeps first = true <;> by_cases new' : keeps new = true <;>
          simp_all [place]

/-- New mates at the same place among mates. -/
theorem forall₂_place {ops partners : List OpId} {id partner : OpId} {before anchor : Option OpId}
    (mates : List.Forall₂ (Mates module other) ops partners) (new : Mates module other id partner)
    (same : Option.Rel (Peers module other) before anchor) :
    List.Forall₂ (Mates module other) (place id before ops) (place partner anchor partners) := by
  induction mates with
  | nil => exact .cons new .nil
  | @cons first mate rest others here mates ih =>
      have both : before = some first ↔ anchor = some mate := by
        cases same with
        | none => simp
        | some peers =>
            simp only [Option.some.injEq]
            constructor
            · rintro rfl
              exact peers.eq_of_eq here.peers
            · rintro rfl
              exact peers.symm.eq_of_eq here.peers.symm
      unfold place
      by_cases hit : before = some first
      · rw [if_pos hit, if_pos (both.mp hit)]
        exact .cons new (.cons here mates)
      · rw [if_neg hit, if_neg (mt both.mpr hit)]
        exact .cons here ih

section Creation

variable {draft : OpDraft} {point place : InsertionPoint} {found : Block}

/-- The new operation acts if its draft does. -/
theorem acts_create : (module.create draft point).2.acts module.ops.size = !draft.isPure :=
  @acts_iff _ ⟨module.ops.size⟩ _ op?_create_self

/-- What a list of old operations and the new one does. -/
theorem effects_create {ops : List OpId} (old : ∀ id ∈ ops, id.index < module.ops.size)
    (acts : ∀ id, point.before = some id → module.acts id.index = true) :
    (module.create draft point).2.effects (Module.place ⟨module.ops.size⟩ point.before ops) =
      if draft.isPure then module.effects ops
      else Module.place ⟨module.ops.size⟩ point.before (module.effects ops) := by
  have retains := Retains.create module draft point
  have grown := retains.effects old
  rw [effects, filter_place, ← effects, grown, acts_create]
  · cases draft.isPure <;> rfl
  · intro id before
    rw [retains.acts (index_lt_of_acts (acts id before)), acts id before]

theorem rank_create (module : Module) (draft : OpDraft) (point : InsertionPoint) :
    (module.create draft point).2.rank (module.create draft point).2.ops.size =
      module.rank module.ops.size + if draft.isPure then 0 else 1 := by
  rw [ops_size_create, rank_succ, (Retains.create module draft point).rank (Nat.le_refl _),
    acts_create]
  cases draft.isPure <;> rfl

theorem Assembled.small (assembled : module.Assembled) {block : BlockId}
    {listed : Block} (known : module.block? block = some listed) :
    ∀ id ∈ listed.ops, id.index < module.ops.size := by
  intro id member
  obtain ⟨op, there, -⟩ := assembled.forest.listed known id member
  exact index_lt_of_op? there

/-- A block of the grown module, with what it lists and the types of its arguments. -/
theorem block?_create_cases (listed : module.block? point.block = some found)
    {block : BlockId} {grown : Block}
    (known : (module.create draft point).2.block? block = some grown) :
    (∃ old, module.block? block = some old ∧ grown.args = old.args ∧
        grown.ops = if block = point.block then
          Module.place ⟨module.ops.size⟩ point.before old.ops else old.ops) ∨
      module.blocks.size ≤ block.index ∧ grown.ops = [] ∧
        some grown.args = draft.regions[block.index - module.blocks.size]? := by
  by_cases small : block.index < module.blocks.size
  · left
    obtain ⟨old, there⟩ : ∃ old, module.block? block = some old :=
      ⟨_, Array.getElem?_eq_getElem small⟩
    by_cases same : block = point.block
    · subst same
      rw [block?_create_self there] at known
      cases known
      exact ⟨old, there, rfl, by simp⟩
    · rw [block?_create_of_ne same there] at known
      cases known
      exact ⟨_, there, rfl, by simp [same]⟩
  · right
    have here := index_lt_of_block? listed
    have different : point.block.index ≠ block.index := by omega
    simp only [block?, create] at known
    rw [Array.getElem?_modify, if_neg different, Array.getElem?_append_right (by omega)] at known
    simp only [List.getElem?_toArray, List.getElem?_map, Option.map_eq_some_iff] at known
    obtain ⟨args, placed, rfl⟩ := known
    exact ⟨by omega, rfl, placed.symm⟩

namespace Parallel

/-- A pure operation in one of the modules is not noticed. -/
theorem create_left (parallel : Parallel module other)
    (listed : module.block? point.block = some found)
    (acts : ∀ id, point.before = some id → module.acts id.index = true)
    (pure : draft.isPure = true) (flat : draft.regions = []) :
    Parallel (module.create draft point).2 other where
  left := parallel.left.create draft listed
  right := parallel.right
  size := by simp [blocks_size_create, flat, parallel.size]
  count := by simp [rank_create, pure, parallel.count]
  block := by
    intro id grown partner known matched
    have retains := Retains.create module draft point
    rcases block?_create_cases listed known with ⟨old, there, args, ops⟩ | ⟨new, -, placed⟩
    · obtain ⟨sameArgs, mates⟩ := parallel.block there matched
      have same : (module.create draft point).2.effects grown.ops = module.effects old.ops := by
        rw [ops]
        split
        · rw [effects_create (parallel.left.small there) acts, if_pos pure]
        · rw [retains.effects (parallel.left.small there)]
      rw [args, same]
      exact ⟨sameArgs, mates.imp fun _ _ mates => mates.grow retains (.refl other)⟩
    · simp [flat] at placed

/-- Operations that act are mates if they are created alike, on twins. -/
theorem mates_create {twin : OpDraft} (parallel : Parallel module other)
    (point place : InsertionPoint)
    (acts : draft.isPure = false) (kind : draft.kind = twin.kind)
    (attributes : draft.attributes = twin.attributes) (results : draft.results = twin.results)
    (regions : draft.regions = twin.regions)
    (operands : List.Forall₂ (Twins module other) draft.operands twin.operands) :
    Mates (module.create draft point).2 (other.create twin place).2 ⟨module.ops.size⟩
      ⟨other.ops.size⟩ := by
  have retains := Retains.create module draft point
  have also := Retains.create other twin place
  refine ⟨⟨_, _, op?_create_self, op?_create_self, acts, kind, attributes, results, ?_,
    operands.imp fun _ _ twins => twins.grow retains also⟩, ?_⟩
  · simp [freshBlocks, parallel.size, regions]
  · rw [retains.rank (Nat.le_refl _), also.rank (Nat.le_refl _), parallel.count]

/-- An operation that acts is created at the same place of both modules, on twins. -/
theorem create_both {twin : OpDraft} {listing : Block} (parallel : Parallel module other)
    (listed : module.block? point.block = some found)
    (known : other.block? place.block = some listing) (same : SamePlace module other point place)
    (acts : draft.isPure = false) (kind : draft.kind = twin.kind)
    (attributes : draft.attributes = twin.attributes) (results : draft.results = twin.results)
    (regions : draft.regions = twin.regions)
    (operands : List.Forall₂ (Twins module other) draft.operands twin.operands) :
    Parallel (module.create draft point).2 (other.create twin place).2 := by
  have also : twin.isPure = false := by
    rw [← acts, OpDraft.isPure, OpDraft.isPure, kind, attributes]
  have retains := Retains.create module draft point
  have widens := Retains.create other twin place
  have new := parallel.mates_create point place acts kind attributes results regions operands
  refine
    { left := parallel.left.create draft listed
      right := parallel.right.create twin known
      size := by simp [blocks_size_create, parallel.size, regions]
      count := by simp [rank_create, acts, also, parallel.count]
      block := fun {id grown partner} there matched => ?_ }
  rcases block?_create_cases listed there with ⟨old, was, args, ops⟩ | ⟨late, none, placed⟩
  · rcases block?_create_cases known matched with ⟨past, had, pastArgs, pastOps⟩ | ⟨late, -⟩
    · obtain ⟨sameArgs, mates⟩ := parallel.block was had
      refine ⟨by rw [args, pastArgs, sameArgs], ?_⟩
      have mates := mates.imp fun _ _ mates => mates.grow retains widens
      rw [ops, pastOps, ← same.block]
      split
      · rw [effects_create (parallel.left.small was) fun _ => same.acts, acts,
          effects_create (parallel.right.small had) fun _ => (same.symm parallel.size).acts, also]
        exact forall₂_place mates new (same.grow retains widens).before
      · rw [retains.effects (parallel.left.small was), widens.effects (parallel.right.small had)]
        exact mates
    · have := index_lt_of_block? was
      rw [parallel.size] at this
      omega
  · rcases block?_create_cases known matched with ⟨past, had, -⟩ | ⟨-, empty, pastPlaced⟩
    · have := index_lt_of_block? had
      rw [← parallel.size] at this
      omega
    · rw [none, empty]
      refine ⟨Option.some.inj ?_, .nil⟩
      rw [placed, pastPlaced, parallel.size, regions]

end Parallel

end Creation

end Module

end AffineKernel
