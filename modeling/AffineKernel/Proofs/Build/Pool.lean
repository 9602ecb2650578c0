import AffineKernel.Build.Construct
import AffineKernel.Build.Indexing
import AffineKernel.Proofs.Build.Outcome

/-!
# The nodes that were constructed

Nodes are trees with identities, and a node that is used twice occurs twice. That
the trees stand for a graph is a fact about the constructors: two nodes of one
identity are the same node. It is stated for a *pool*, the set of the nodes and
tensors constructed so far. A sound pool has with every node the nodes below it,
its identities are not free any more, and each of its nodes is formed as the
constructors form it: operands have the types that the node needs.

The types of operands follow from the rules of promotion: the operands of an
arithmetic operator or comparison are brought to one category and one width.
-/

set_option autoImplicit false

namespace AffineKernel

/-- Two types that meet in an operator: one category and one width. -/
structure DType.Meets (left right : DType) : Prop where
  category : right.category = left.category
  width : right.width = left.width

/-- The node of a bound, unless it is a literal. -/
def Bound.exprs : Bound → List Expr
  | .const _ => []
  | .expr value => [value]

namespace Expr

/-- The tensor that a node reads or writes. -/
def tensor? : Expr → Option Tensor
  | .load _ tensor _ | .store _ tensor _ _ => some tensor
  | _ => none

/-- The nodes in the bounds of an axis. -/
def bounds : Expr → List Expr
  | .axis _ _ lower upper => lower.exprs ++ upper.exprs
  | _ => []

/-- The operands of a node have the types that the node needs, and an access has an index for each
dimension. -/
def Formed : Expr → Prop
  | .unary _ dtype _ operand => dtype.category = .float ∧ operand.dtype? = some dtype
  | .binary _ dtype kind lhs rhs =>
    lhs.dtype? = some dtype ∧ (∃ op, kind.lower dtype = .ok op) ∧
      ∃ right, rhs.dtype? = some right ∧ dtype.Meets right
  | .compare _ _ lhs rhs =>
    ∃ left right, lhs.dtype? = some left ∧ rhs.dtype? = some right ∧ left.Meets right
  | .cast _ dtype source => ∃ sourceType, source.dtype? = some sourceType ∧ sourceType ≠ dtype
  | .select _ dtype condition thenValue elseValue =>
    condition.dtype? = some .bool ∧ thenValue.dtype? = some dtype ∧ elseValue.dtype? = some dtype
  | .getBit _ value bit =>
    (∃ dtype, value.dtype? = some dtype ∧ dtype.isInt = true) ∧ bit.dtype? = some .index
  | .load _ tensor indices => indices.length = tensor.rank
  | .store _ tensor value indices =>
    value.dtype? = some tensor.dtype ∧ indices.length = tensor.rank
  | _ => True

end Expr

/-- Nodes and tensors. -/
structure Pool where
  expr : Expr → Prop
  tensor : Tensor → Prop

namespace Pool

/-- The pool without nodes and tensors. -/
def empty : Pool := ⟨fun _ => False, fun _ => False⟩

/-- One more node. -/
def insert (pool : Pool) (expr : Expr) : Pool :=
  { pool with expr := fun other => pool.expr other ∨ other = expr }

/-- One more tensor. -/
def insertTensor (pool : Pool) (tensor : Tensor) : Pool :=
  { pool with tensor := fun other => pool.tensor other ∨ other = tensor }

/-- A pool has what another one has. -/
structure Le (pool wider : Pool) : Prop where
  expr : ∀ {expr : Expr}, pool.expr expr → wider.expr expr
  tensor : ∀ {tensor : Tensor}, pool.tensor tensor → wider.tensor tensor

/-- A node whose parts are in a pool. -/
structure Accepts (pool : Pool) (expr : Expr) : Prop where
  operands : ∀ operand ∈ expr.operands, pool.expr operand
  bounds : ∀ bound ∈ expr.bounds, pool.expr bound
  formed : expr.Formed
  tensors : ∀ tensor, expr.tensor? = some tensor → pool.tensor tensor

/-- A graph of well-formed nodes whose identities are below `next`. -/
structure Sound (pool : Pool) (next : NodeId) : Prop where
  below : ∀ {expr : Expr}, pool.expr expr → expr.id < next
  unique : ∀ {expr other : Expr}, pool.expr expr → pool.expr other → expr.id = other.id →
    expr = other
  accepts : ∀ {expr : Expr}, pool.expr expr → pool.Accepts expr
  tensorBelow : ∀ {tensor : Tensor}, pool.tensor tensor → tensor.id < next
  tensorUnique : ∀ {tensor other : Tensor}, pool.tensor tensor → pool.tensor other →
    tensor.id = other.id → tensor = other

/-- An index over nodes of a pool. -/
def index (pool : Pool) : IndexArg → Prop
  | .expr value => pool.expr value
  | .const _ => True

/-- A slice of a tensor of a pool with indices of the pool. -/
def slice (pool : Pool) (slice : Slice) : Prop :=
  pool.tensor slice.tensor ∧ ∀ index ∈ slice.indices, pool.expr index

/-- What indexing makes of a tensor of a pool. -/
def indexed (pool : Pool) : Indexed → Prop
  | .slice slice => pool.slice slice
  | .load expr => pool.expr expr

variable {pool wider widest : Pool} {next : NodeId}

theorem Le.index (le : Le pool wider) {arg : IndexArg} (member : pool.index arg) :
    wider.index arg := by
  cases arg with
  | expr value => exact le.expr member
  | const value => trivial

theorem Le.slice (le : Le pool wider) {slice : Slice} (member : pool.slice slice) :
    wider.slice slice :=
  ⟨le.tensor member.1, fun index listed => le.expr (member.2 index listed)⟩

theorem Le.refl (pool : Pool) : Le pool pool := ⟨fun member => member, fun member => member⟩

theorem Le.trans (first : Le pool wider) (second : Le wider widest) : Le pool widest :=
  ⟨fun member => second.expr (first.expr member), fun member => second.tensor (first.tensor member)⟩

theorem le_insert (pool : Pool) (expr : Expr) : Le pool (pool.insert expr) :=
  ⟨.inl, fun member => member⟩

theorem le_insertTensor (pool : Pool) (tensor : Tensor) : Le pool (pool.insertTensor tensor) :=
  ⟨fun member => member, .inl⟩

theorem sound_empty (next : NodeId) : empty.Sound next where
  below member := member.elim
  unique member := member.elim
  accepts member := member.elim
  tensorBelow member := member.elim
  tensorUnique member := member.elim

theorem Accepts.mono {expr : Expr} (accepts : pool.Accepts expr) (le : Le pool wider) :
    wider.Accepts expr where
  operands operand member := le.expr (accepts.operands operand member)
  bounds bound member := le.expr (accepts.bounds bound member)
  formed := accepts.formed
  tensors tensor used := le.tensor (accepts.tensors tensor used)

namespace Sound

variable (sound : pool.Sound next)
include sound

theorem operands {expr : Expr} (member : pool.expr expr) :
    ∀ operand ∈ expr.operands, pool.expr operand := (sound.accepts member).operands

theorem formed {expr : Expr} (member : pool.expr expr) : expr.Formed :=
  (sound.accepts member).formed

theorem tensors {expr : Expr} (member : pool.expr expr) :
    ∀ tensor, expr.tensor? = some tensor → pool.tensor tensor := (sound.accepts member).tensors

/-- Later identities are free as well. -/
theorem mono {later : NodeId} (le : next ≤ later) : pool.Sound later :=
  { sound with
    below := fun member => Nat.lt_of_lt_of_le (sound.below member) le
    tensorBelow := fun member => Nat.lt_of_lt_of_le (sound.tensorBelow member) le }

/-- A new node over nodes of the pool. -/
theorem insert {expr : Expr} (fresh : expr.id = next) (accepts : pool.Accepts expr) :
    (pool.insert expr).Sound (next + 1) where
  below := by
    rintro other (old | rfl)
    · exact Nat.lt_succ_of_lt (sound.below old)
    · exact fresh ▸ Nat.lt_succ_self _
  unique := by
    rintro first second (firstOld | rfl) (secondOld | rfl) same
    · exact sound.unique firstOld secondOld same
    · exact absurd (same.trans fresh) (Nat.ne_of_lt (sound.below firstOld))
    · exact absurd (same.symm.trans fresh) (Nat.ne_of_lt (sound.below secondOld))
    · rfl
  accepts := by
    rintro other (old | rfl)
    · exact (sound.accepts old).mono (le_insert pool _)
    · exact accepts.mono (le_insert pool _)
  tensorBelow member := Nat.lt_succ_of_lt (sound.tensorBelow member)
  tensorUnique := sound.tensorUnique

/-- A new tensor. -/
theorem insertTensor {tensor : Tensor} (fresh : tensor.id = next) :
    (pool.insertTensor tensor).Sound (next + 1) where
  below member := Nat.lt_succ_of_lt (sound.below member)
  unique := sound.unique
  accepts member := (sound.accepts member).mono (le_insertTensor pool _)
  tensorBelow := by
    rintro other (old | rfl)
    · exact Nat.lt_succ_of_lt (sound.tensorBelow old)
    · exact fresh ▸ Nat.lt_succ_self _
  tensorUnique := by
    rintro first second (firstOld | rfl) (secondOld | rfl) same
    · exact sound.tensorUnique firstOld secondOld same
    · exact absurd (same.trans fresh) (Nat.ne_of_lt (sound.tensorBelow firstOld))
    · exact absurd (same.symm.trans fresh) (Nat.ne_of_lt (sound.tensorBelow secondOld))
    · rfl

end Sound

end Pool

/-! ## Types of operands -/

namespace Promotion

theorem castTarget_category {high low target : DType} (passed : castTarget high low = .ok target) :
    target.category = high.category := by
  cases high with
  | int | uint | index | float32 | float64 => cases passed; rfl
  | float16 => cases passed
  | fixed width fraction =>
      simp only [castTarget] at passed
      split at passed
      · cases passed
        rfl
      · split at passed
        · rename_i isFixed
          cases passed
          cases low <;> simp [DType.isFixed, DType.category] at isFixed ⊢
        · cases passed
  | ufixed width fraction =>
      simp only [castTarget] at passed
      split at passed
      · cases passed
        rfl
      · split at passed
        · rename_i isFixed
          cases passed
          cases low <;> simp [DType.isFixed, DType.category] at isFixed ⊢
        · cases passed

theorem checkWidth_ok {width rank : Nat} (passed : DType.checkWidth width = .ok rank) :
    rank = width ∧ width ≤ 64 := by
  unfold DType.checkWidth at passed
  split at passed
  · rename_i small
    cases passed
    exact ⟨rfl, small⟩
  · cases passed

/-- What the rank of a type says about its category and width. -/
theorem rank_eq {dtype : DType} {rank : Nat} (ranked : dtype.rank = .ok rank) :
    dtype.category = .int ∧ (rank = dtype.width ∧ rank ≤ 64 ∨ rank = 65 ∧ dtype.width = 64) ∨
      dtype.category = .fixed ∧ rank = 100 + dtype.width ∧ rank ≤ 164 ∨
      dtype.category = .float ∧ (rank = 1001 ∧ dtype.width = 16 ∨ rank = 1002 ∧ dtype.width = 32 ∨
        rank = 1003 ∧ dtype.width = 64) := by
  cases dtype with
  | int width | uint width =>
      obtain ⟨rfl, small⟩ := checkWidth_ok ranked
      simp [DType.category, DType.width, small]
  | fixed width fraction | ufixed width fraction =>
      simp only [DType.rank, DType.fixedRankBase] at ranked
      cases checked : DType.checkWidth width with
      | error error =>
          rw [checked] at ranked
          cases ranked
      | ok small =>
          rw [checked] at ranked
          obtain ⟨rfl, bound⟩ := checkWidth_ok checked
          cases ranked
          simp [DType.category, DType.width]
          omega
  | index | float16 | float32 | float64 =>
      cases ranked
      simp [DType.category, DType.width, DType.indexRank, DType.floatRankBase]

/-- Types of one rank meet. -/
theorem meets_of_rank {lhs rhs : DType} {rank : Nat} (left : lhs.rank = .ok rank)
    (right : rhs.rank = .ok rank) : lhs.Meets rhs := by
  have leftRank := rank_eq left
  have rightRank := rank_eq right
  constructor
  · cases leftSort : lhs.category <;> cases rightSort : rhs.category <;>
      simp [leftSort, rightSort] at leftRank rightRank ⊢ <;> omega
  · omega

theorem rankOf_eq {dtype : DType} {rank : Nat} (ranked : rankOf dtype = .ok rank) :
    dtype.rank = .ok rank := by
  unfold rankOf at ranked
  cases found : dtype.rank with
  | ok other =>
      rw [found] at ranked
      cases ranked
      rfl
  | error error =>
      rw [found] at ranked
      cases ranked

theorem byRank_category {lhs rhs : DType} {types : DType × DType}
    (passed : byRank lhs rhs = .ok types) : types.2.category = types.1.category := by
  obtain ⟨left, leftRank, passed⟩ := Except.bind_eq_ok passed
  obtain ⟨right, rightRank, passed⟩ := Except.bind_eq_ok passed
  split at passed
  · rename_i same
    cases passed
    exact (meets_of_rank (rankOf_eq leftRank) (same ▸ rankOf_eq rightRank)).category
  · split at passed
    · obtain ⟨target, found, passed⟩ := Except.bind_eq_ok passed
      cases passed
      exact castTarget_category found
    · obtain ⟨target, found, passed⟩ := Except.bind_eq_ok passed
      cases passed
      exact (castTarget_category found).symm

theorem category_withWidth (dtype : DType) (width : Nat) :
    (dtype.withWidth width).category = dtype.category := by
  cases dtype <;> rfl

theorem regularize_category {lhs rhs : DType} {types : DType × DType}
    (same : rhs.category = lhs.category) (passed : regularize lhs rhs = .ok types) :
    types.2.category = types.1.category := by
  unfold regularize at passed
  split at passed
  · cases passed
    exact same
  · split at passed
    · cases passed
    · split at passed
      · cases passed
      · cases passed
        rw [category_withWidth, category_withWidth, same]

/-- A type beside which others are cast to it. -/
theorem castTarget_eq {high low target : DType} (plain : high.isFixed = false)
    (passed : castTarget high low = .ok target) : target = high := by
  cases high with
  | int | uint | index | float32 | float64 => cases passed; rfl
  | float16 => cases passed
  | fixed | ufixed => cases plain

theorem byRank_width {lhs rhs : DType} {types : DType × DType}
    (passed : byRank lhs rhs = .ok types) (plain : types.1.isFixed = false)
    (plainRight : types.2.isFixed = false) : types.2.width = types.1.width := by
  obtain ⟨left, leftRank, passed⟩ := Except.bind_eq_ok passed
  obtain ⟨right, rightRank, passed⟩ := Except.bind_eq_ok passed
  split at passed
  · rename_i same
    cases passed
    exact (meets_of_rank (rankOf_eq leftRank) (same ▸ rankOf_eq rightRank)).width
  · split at passed
    · obtain ⟨target, found, passed⟩ := Except.bind_eq_ok passed
      cases passed
      rw [castTarget_eq plain found]
    · obtain ⟨target, found, passed⟩ := Except.bind_eq_ok passed
      cases passed
      rw [castTarget_eq plainRight found]

theorem width_withWidth {dtype : DType} (isFixed : dtype.isFixed = true) (width : Nat) :
    (dtype.withWidth width).width = width := by
  cases dtype <;> first | rfl | cases isFixed

theorem regularize_width {lhs rhs : DType} {types : DType × DType}
    (plain : lhs.isFixed = false → rhs.isFixed = false → rhs.width = lhs.width)
    (passed : regularize lhs rhs = .ok types) : types.2.width = types.1.width := by
  unfold regularize at passed
  split at passed
  · rename_i unfixed
    obtain ⟨left, right⟩ : lhs.isFixed = false ∧ rhs.isFixed = false := by simpa using unfixed
    cases passed
    exact plain left right
  · split at passed
    · cases passed
    · rename_i isFixed
      obtain ⟨left, right⟩ : lhs.isFixed = true ∧ rhs.isFixed = true := by simpa using isFixed
      split at passed
      · cases passed
      · cases passed
        rw [width_withWidth left, width_withWidth right]

/-- The operands of an arithmetic operator or comparison are brought to types that meet. -/
theorem arithmetic_meets {lhs rhs : DType} {types : DType × DType}
    (passed : arithmetic lhs rhs = .ok types) : types.1.Meets types.2 := by
  obtain ⟨ranked, found, passed⟩ := Except.bind_eq_ok passed
  exact ⟨regularize_category (byRank_category found) passed,
    regularize_width (byRank_width found) passed⟩

theorem checkBits_ok {kind : BinaryKind} {dtype : DType} (passed : checkBits kind dtype = .ok ()) :
    dtype.category = .int := by
  cases dtype with
  | int | uint | index => rfl
  | fixed | ufixed | float16 | float32 | float64 => cases passed

/-- The operands of a shift or bit operator are brought to one type of integers. -/
theorem bitwise_types {kind : BinaryKind} {lhs rhs : DType} {types : DType × DType}
    (passed : bitwise kind lhs rhs = .ok types) :
    types.2 = types.1 ∧ types.1.category = .int := by
  obtain ⟨_, checked, passed⟩ := Except.bind_eq_ok passed
  obtain ⟨_, _, passed⟩ := Except.bind_eq_ok passed
  cases passed
  exact ⟨rfl, checkBits_ok checked⟩

end Promotion

end AffineKernel
