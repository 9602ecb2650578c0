import AffineKernel.Proofs.Build.Stages
import AffineKernel.Proofs.Script.Sharing

/-!
# Indexing in stages, in a program

At every moment of a program a tensor can be indexed in stages with what the
variables of the program hold, and this is indexing it at once
(`Program.index_in_stages`). The slice that is made on the way resumes where
indexing had got to (`Context.Resumes`), and storing through it is storing into
the tensor (`Context.StoresThrough`).

The one thing that can go wrong on the way is a literal: it becomes a constant,
and in the in-place mode a constant is built at once, for which there has to be
an insertion point (`Program.unplaced_index`).
-/

set_option autoImplicit false

namespace AffineKernel

namespace Context

/-- A slice of a tensor with the nodes of indices, from which indexing the tensor goes on. -/
structure Resumes (before : Context) (tensor : Tensor) (args : List IndexArg) (slice : Slice)
    (sliced : Context) : Prop where
  of_tensor : slice.tensor = tensor
  shape : slice.shape = tensor.shape.drop args.length
  indices : List.Forall₂ (IndexArg.Becomes before.nextId) args slice.indices
  /-- Further indices have the outcome that all of them have at once. -/
  index : ∀ more : List IndexArg, args.length + more.length ≤ tensor.rank →
    BuildM.indexSlice slice more sliced = BuildM.index tensor (args ++ more) before
  makes : ∀ more made after, BuildM.indexSlice slice more sliced = .ok made after →
    ∃ nodes, List.Forall₂ (IndexArg.Becomes before.nextId) more nodes ∧
      Indexed.Of tensor (slice.indices ++ nodes) made
  /-- Too many indices are refused on either way, with their number in all. -/
  refuses : ∀ more : List IndexArg, tensor.rank < args.length + more.length →
    BuildM.indexSlice slice more sliced =
      .error (.tooManyIndices tensor.name tensor.rank (args.length + more.length)) sliced ∧
    BuildM.index tensor (args ++ more) before =
      .error (.tooManyIndices tensor.name tensor.rank (args.length + more.length)) before

/-- Storing a value through a slice is storing it into the tensor. -/
structure StoresThrough (before : Context) (tensor : Tensor) (args : List IndexArg) (slice : Slice)
    (sliced : Context) (value : BuildM Expr) (more : List IndexArg) : Prop where
  /-- The store is the same but for new identities, or the error is the same. -/
  same : SameOutcome (fun store _ other _ => store.Renews before.nextId other)
    (BuildM.storeSlice value slice more sliced) (BuildM.store value tensor (args ++ more) before)
  makes : ∀ made after, BuildM.storeSlice value slice more sliced = .ok made after →
    ∃ id stored nodes, made = .store id tensor stored (slice.indices ++ nodes) ∧
      stored.dtype? = some tensor.dtype ∧ List.Forall₂ (IndexArg.Becomes 0) more nodes
  refuses : tensor.rank < args.length + more.length →
    BuildM.storeSlice value slice more sliced =
      .error (.tooManyIndices tensor.name tensor.rank (args.length + more.length)) sliced
  partialWrite : args.length + more.length < tensor.rank →
    BuildM.storeSlice value slice more sliced =
      .error (.partialWrite tensor.name tensor.rank (args.length + more.length)) sliced

end Context

namespace BuildM

open Context

variable {context sliced : Context} {tensor : Tensor} {args more : List IndexArg}
  {indices : List Expr} {pool : Pool} {value : BuildM Expr}

/-- Indices without literals. -/
theorem exists_exprs (plain : ∀ arg ∈ args, ∃ expr, arg = IndexArg.expr expr) :
    ∃ nodes : List Expr, args = nodes.map .expr := by
  induction args with
  | nil => exact ⟨[], rfl⟩
  | cons arg rest ih =>
      obtain ⟨expr, rfl⟩ := plain arg List.mem_cons_self
      obtain ⟨nodes, rfl⟩ := ih fun other later => plain other (List.mem_cons_of_mem _ later)
      exact ⟨expr :: nodes, rfl⟩

/-- The nodes of indices, if there is room for constants or no literal among the indices. -/
theorem indices_made (unborn : context.Unborn)
    (admits : context.Roomy ∨ ∀ arg ∈ args, ∃ expr, arg = .expr expr) :
    ∃ indices sliced, args.mapM indexExpr context = .ok indices sliced ∧
      List.Forall₂ (IndexArg.Becomes context.nextId) args indices ∧ context.Renewed sliced := by
  rcases admits with roomy | plain
  · exact (indices_renew args roomy unborn).exists_ok
  · obtain ⟨nodes, rfl⟩ := exists_exprs plain
    refine ⟨nodes, context, by rw [mapM_indexExpr_exprs]; rfl, ?_, .refl context⟩
    rw [List.forall₂_map_left_iff, List.forall₂_same]
    exact fun node _ => .expr node

section Sliced

variable (made : args.mapM indexExpr context = .ok indices sliced)
  (few : args.length < tensor.rank)
include made few

/-- Indexing in stages makes the slice with the nodes of all indices. -/
theorem indexStages_ok {stages : List (List IndexArg)} (all : stages.flatten = args) :
    indexStages (.whole tensor) stages context = .ok (.slice ⟨tensor, indices⟩) sliced := by
  subst all
  rw [indexStages_eq (by simpa [Slice.whole] using few)]
  simp only [Bind.bind, EStateM.bind, made]
  rfl

/-- Indexing at once makes the same slice. -/
theorem index_ok : index tensor args context = .ok (.slice ⟨tensor, indices⟩) sliced := by
  rw [index, indexSlice_of_lt (by simpa [Slice.whole] using few)]
  simp only [Bind.bind, EStateM.bind, made]
  rfl

/-- The slice resumes where indexing had got to. -/
theorem sliced_resumes (becomes : List.Forall₂ (IndexArg.Becomes context.nextId) args indices)
    (le : context.nextId ≤ sliced.nextId) :
    context.Resumes tensor args ⟨tensor, indices⟩ sliced where
  of_tensor := rfl
  shape := by rw [Slice.shape, becomes.length_eq]
  indices := becomes
  index more fits := by
    have stages := @indexSlice_append (.whole tensor) args more
      (by simpa [Slice.whole] using few) (by simpa [Slice.whole] using fits)
    have first := index_ok made few
    have once := congrFun stages context
    rw [index] at first
    simp only [Bind.bind, EStateM.bind, first] at once
    exact once
  makes more made after ran := (indexSlice_makes _ more le).of_ok ran
  refuses more many := by
    have count : indices.length = args.length := becomes.length_eq.symm
    rw [index, indexSlice_of_gt (by simpa [count] using many),
      indexSlice_of_gt (by simpa [Slice.whole] using many)]
    simp only [Slice.whole, List.length_nil, List.length_append, Nat.zero_add, count]
    exact ⟨rfl, rfl⟩

end Sliced

/-- Storing through the slice is storing into the tensor. -/
theorem sliced_stores (becomes : List.Forall₂ (IndexArg.Becomes context.nextId) args indices)
    (same : SameOutcome (fun store _ other _ => store.Renews context.nextId other)
      (storeSlice value ⟨tensor, indices⟩ more sliced)
      (store value tensor (args ++ more) context)) :
    context.StoresThrough tensor args ⟨tensor, indices⟩ sliced value more where
  same := same
  makes made after ran := (storeSlice_makes value _ more sliced).of_ok ran
  refuses many := by
    have count : indices.length = args.length := becomes.length_eq.symm
    rw [storeSlice_of_gt value (by simpa [count] using many)]
    simp only [count]
    rfl
  partialWrite few := by
    have count : indices.length = args.length := becomes.length_eq.symm
    rw [storeSlice_of_lt value (by simpa [count] using few)]
    simp only [count]
    rfl

/-- What an operand yields is the same in both contexts. -/
theorem operand_twins {first second : Context} {next : NodeId} {vars : Variables}
    {operand : Operand} (sound : pool.Sound next) (paired : Paired pool next first second)
    (roomy : first.Roomy) (holds : pool.Holds vars) (resolved : vars.operand operand = .ok value) :
    SameOutcome (Twins pool next) (value first) (value second) := by
  cases operand with
  | var name =>
      obtain ⟨expr, found, same⟩ := Except.bind_eq_ok resolved
      cases same
      exact .ok ⟨.same expr, .node (holds.expr found), paired, roomy⟩
  | int literal =>
      cases resolved
      exact constant_twins sound paired roomy ⟨_, rfl⟩ _
  | float literal | single literal =>
      cases resolved
      exact constant_twins sound paired roomy ⟨_, rfl⟩ _

/-- A store through the slice has the outcome of the store into the tensor. -/
theorem storeSlice_same {vars : Variables} {operand : Operand} (sound : pool.Sound context.nextId)
    (unborn : context.Unborn) (holds : pool.Holds vars)
    (resolved : vars.operand operand = .ok value) (members : ∀ arg ∈ args ++ more, pool.index arg)
    (made : args.mapM indexExpr context = .ok indices sliced)
    (becomes : List.Forall₂ (IndexArg.Becomes context.nextId) args indices)
    (renewed : context.Renewed sliced)
    (admits : context.Roomy ∨ ∀ arg ∈ args, ∃ expr, arg = .expr expr) :
    SameOutcome (fun store _ other _ => store.Renews context.nextId other)
      (storeSlice value ⟨tensor, indices⟩ more sliced)
      (store value tensor (args ++ more) context) := by
  rcases admits with roomy | plain
  · have paired : Paired pool context.nextId sliced context :=
      ⟨renewed.tally sound, renewed.unborn unborn, unborn, renewed.nextId_le, Nat.le_refl _⟩
    exact storeSlice_twins sound members becomes
      (operand_twins sound paired (renewed.roomy roomy) holds resolved)
  · obtain ⟨nodes, rfl⟩ := exists_exprs plain
    rw [mapM_indexExpr_exprs] at made
    cases made
    rw [← storeSlice_exprs]
    exact .of_eq rfl fun store _ => .same store

end BuildM

namespace Program

/-- **Indexing in stages.** At every moment of a program, let a tensor be indexed in any number of
stages, with fewer indices than its rank in all: literals, and expressions that the program has.
Unless an index is a literal and there is no insertion point in the in-place mode, this makes a
slice of the shape that is left, and the same one as indexing at once. Indexing the slice further
has the same outcome as indexing the tensor with all indices, be it a slice, a load, or an error;
and so has storing a value, up to identities that are new. -/
theorem index_in_stages (program : Program) {moment : Session}
    (passes : Session.Passes program.body (program.session .fresh) moment) (tensor : Tensor)
    (stages : List (List IndexArg)) (few : stages.flatten.length < tensor.rank)
    (given : ∀ arg ∈ stages.flatten, ∃ term, moment.vars.indexArg term = .ok arg)
    (admits : moment.context.Roomy ∨ ∀ arg ∈ stages.flatten, ∃ expr, arg = .expr expr) :
    ∃ slice sliced,
      BuildM.indexStages (.whole tensor) stages moment.context = .ok (.slice slice) sliced ∧
      BuildM.index tensor stages.flatten moment.context = .ok (.slice slice) sliced ∧
      moment.context.Resumes tensor stages.flatten slice sliced ∧
      ∀ (operand : Operand) (value : BuildM Expr) (more : List IndexArg),
        moment.vars.operand operand = .ok value →
        (∀ arg ∈ more, ∃ term, moment.vars.indexArg term = .ok arg) →
        moment.context.StoresThrough tensor stages.flatten slice sliced value more := by
  obtain ⟨pool, grounded, held⟩ := grounded_of_passes passes
  have unborn : moment.context.Unborn := fun _ later => grounded.unbound later
  have inPool : ∀ {args : List IndexArg},
      (∀ arg ∈ args, ∃ term, moment.vars.indexArg term = .ok arg) → ∀ arg ∈ args, pool.index arg :=
    fun resolved arg listed =>
      have ⟨_, found⟩ := resolved arg listed
      held.indexArg found
  obtain ⟨indices, sliced, made, becomes, renewed⟩ := BuildM.indices_made unborn admits
  refine ⟨⟨tensor, indices⟩, sliced, BuildM.indexStages_ok made few rfl, BuildM.index_ok made few,
    BuildM.sliced_resumes made few becomes renewed.nextId_le, ?_⟩
  intro operand value more resolved further
  have members := List.forall_mem_append.mpr ⟨inPool given, inPool further⟩
  exact BuildM.sliced_stores becomes (BuildM.storeSlice_same grounded.sound unborn held resolved
    members made becomes renewed admits)

/-- A tensor of two rows with three elements each. -/
def grid : Tensor := ⟨0, "t", [2, 3], .int 32⟩

/-- A program that allocates the tensor in the in-place mode and then drops all insertion points. -/
def gridProgram : Program where
  mode := some .inPlace
  setting := none
  setup := []
  body :=
    [.command ⟨some "t", false⟩ (.alloc "t" [2, 3] (.int 32)),
      .command ⟨none, false⟩ .clearPoints]

/-- The session in which the tensor was allocated. -/
def gridMoment : Session :=
  (Session.runStatement (.command ⟨some "t", false⟩ (.alloc "t" [2, 3] (.int 32)))
    (gridProgram.session .fresh)).2

/-- The session without insertion points. -/
def unplacedMoment : Session :=
  (Session.runStatement (.command ⟨none, false⟩ .clearPoints) gridMoment).2

/-- An element of the tensor is read and written in two stages. The number that is written has
another type than the tensor and is cast. -/
theorem grid_in_stages : ∃ slice sliced,
    BuildM.indexStages (.whole grid) [[.const 1]] gridMoment.context =
      .ok (.slice slice) sliced ∧
    slice.shape = [3] ∧
    BuildM.indexSlice slice [.const 2] sliced =
      BuildM.index grid [.const 1, .const 2] gridMoment.context ∧
    SameOutcome (fun store _ other _ => store.Renews gridMoment.context.nextId other)
      (BuildM.storeSlice (BuildM.floatLiteral 1.5) slice [.const 2] sliced)
      (BuildM.store (BuildM.floatLiteral 1.5) grid [.const 1, .const 2] gridMoment.context) := by
  have passes : Session.Passes gridProgram.body (gridProgram.session .fresh) gridMoment :=
    .later .here
  have given : ∀ arg ∈ [IndexArg.const 1], ∃ term, gridMoment.vars.indexArg term = .ok arg :=
    List.forall_mem_singleton.mpr ⟨.const 1, rfl⟩
  have further : ∀ arg ∈ [IndexArg.const 2], ∃ term, gridMoment.vars.indexArg term = .ok arg :=
    List.forall_mem_singleton.mpr ⟨.const 2, rfl⟩
  have roomy : gridMoment.context.Roomy := fun _ => List.cons_ne_nil _ _
  obtain ⟨slice, sliced, staged, -, resumes, stores⟩ :=
    index_in_stages gridProgram passes grid [[.const 1]] (by decide) given (.inl roomy)
  have written := stores (.float 1.5) _ [.const 2] rfl further
  exact ⟨slice, sliced, staged, resumes.shape, resumes.index [.const 2] (by decide), written.same⟩

/-- Without an insertion point, a literal among the indices is refused in the in-place mode. -/
theorem unplaced_index :
    Session.Passes gridProgram.body (gridProgram.session .fresh) unplacedMoment ∧
      unplacedMoment.vars.tensor "t" = .ok grid ∧ [IndexArg.const 1].length < grid.rank ∧
      ¬ ∃ slice sliced,
        BuildM.index grid [.const 1] unplacedMoment.context = .ok (.slice slice) sliced := by
  refine ⟨.later (.later .here), rfl, by decide, ?_⟩
  rintro ⟨slice, sliced, made⟩
  have refused : ∃ after,
      BuildM.index grid [.const 1] unplacedMoment.context = .error .emptyStack after := ⟨_, rfl⟩
  obtain ⟨after, refused⟩ := refused
  cases made.symm.trans refused

end Program

end AffineKernel
