import AffineKernel.Proofs.Build.Twins

/-!
# Indexing in stages

A tensor may be indexed at once or in stages, each of which makes a slice of the
one before (`BuildM.indexStages`). What an index becomes does not depend on the
stage: an expression stays as it is, and a literal becomes a new constant
(`IndexArg.Becomes`).

For reading there is little to compare. As long as there are not too many
indices, indexing in stages does the same steps in the same order as indexing at
once (`BuildM.indexSlice_append`). A store makes its value before its indices,
so the constants of earlier stages are made before the value in one case and
after it in the other. Still the value, its cast, the indices and the store are
twins (`BuildM.storeSlice_twins`).
-/

set_option autoImplicit false

namespace AffineKernel

/-- What indexing makes of a tensor and nodes: a slice of it if there are too few, a load if there
is one for each dimension. -/
inductive Indexed.Of (tensor : Tensor) (indices : List Expr) : Indexed → Prop where
  | slice (few : indices.length < tensor.rank) : Of tensor indices (.slice ⟨tensor, indices⟩)
  | load (id : NodeId) (full : indices.length = tensor.rank) :
      Of tensor indices (.load (.load id tensor indices))

namespace BuildM

open Context

variable {context after first second : Context} {slice : Slice} {tensor : Tensor}
  {args more : List IndexArg} {pool : Pool} {next : NodeId}

/-- Further indices of what indexing made; nothing is left to index in a load. -/
def indexFurther (args : List IndexArg) : Indexed → BuildM Indexed
  | .slice slice => indexSlice slice args
  | .load expr => pure (.load expr)

/-- Indexes a slice in stages. -/
def indexStages (slice : Slice) : List (List IndexArg) → BuildM Indexed
  | [] => pure (.slice slice)
  | args :: rest => do
    match ← indexSlice slice args with
    | .slice next => indexStages next rest
    | .load expr => return .load expr

/-- Two continuations of the nodes of indices need only be compared on as many nodes. -/
theorem mapM_bind_congr {α : Type} {next other : List Expr → BuildM α}
    (same : ∀ indices, indices.length = args.length → next indices = other indices) :
    args.mapM indexExpr >>= next = args.mapM indexExpr >>= other := by
  funext context
  simp only [Bind.bind, EStateM.bind]
  cases made : args.mapM indexExpr context with
  | error error after => rfl
  | ok indices after =>
      simp only
      rw [same indices ((indices_become args (Nat.le_refl _)).of_ok made).length_eq.symm]

/-- Too few indices make a slice. -/
theorem indexSlice_of_lt (few : slice.indices.length + args.length < slice.tensor.rank) :
    indexSlice slice args = do
      let indices ← args.mapM indexExpr
      return .slice ⟨slice.tensor, slice.indices ++ indices⟩ := by
  simp only [indexSlice, checkRank, if_neg (Nat.not_lt.mpr (Nat.le_of_lt few)), if_pos few,
    pure_bind]

/-- Too many indices are refused. -/
theorem indexSlice_of_gt (many : slice.tensor.rank < slice.indices.length + args.length) :
    indexSlice slice args = throw (.tooManyIndices slice.tensor.name slice.tensor.rank
      (slice.indices.length + args.length)) := by
  rw [indexSlice, checkRank, if_pos many]
  rfl

/-- Constructing a node makes the node, whatever becomes of building it. -/
theorem finish_makes (node : NodeId → Expr) (context : Context) :
    Ensures (finish node) context (fun expr _ => ∃ id, expr = node id) fun _ => True := by
  rw [finish, ensures_bind, ensures_freshId, ensures_bind, ensures_get]
  split
  · rw [ensures_bind]
    exact Ensures.mono (build_emits _ _) (fun _ _ _ => ⟨_, rfl⟩) fun _ _ => trivial
  · exact ⟨_, rfl⟩

/-- What becomes of a slice and further indices. -/
theorem indexSlice_makes (slice : Slice) (args : List IndexArg) (le : next ≤ context.nextId) :
    Ensures (indexSlice slice args) context
      (fun made _ => ∃ nodes, List.Forall₂ (IndexArg.Becomes next) args nodes ∧
        Indexed.Of slice.tensor (slice.indices ++ nodes) made) fun _ => True := by
  rw [indexSlice, checkRank]
  split
  · exact trivial
  rename_i fits
  rw [pure_bind, ensures_bind]
  refine (indices_become args le).mono (fun nodes after becomes => ?_) fun _ _ => trivial
  have count : (slice.indices ++ nodes).length = slice.indices.length + args.length := by
    rw [List.length_append, becomes.length_eq]
  split
  · rename_i few
    exact ⟨nodes, becomes, .slice (count ▸ few)⟩
  · rename_i full
    rw [ensures_bind]
    refine (finish_makes _ after).mono ?_ fun _ _ => trivial
    rintro _ _ ⟨id, rfl⟩
    exact ⟨nodes, becomes, .load id (by omega)⟩

/-- Indexing a slice in two stages is indexing it at once. -/
theorem indexSlice_append (few : slice.indices.length + args.length < slice.tensor.rank)
    (fits : slice.indices.length + args.length + more.length ≤ slice.tensor.rank) :
    indexSlice slice args >>= indexFurther more = indexSlice slice (args ++ more) := by
  have rest : slice.indices.length + (args ++ more).length ≤ slice.tensor.rank := by
    rw [List.length_append]
    omega
  rw [indexSlice_of_lt few, indexSlice, checkRank, if_neg (Nat.not_lt.mpr rest), pure_bind,
    List.mapM_append, bind_assoc, bind_assoc]
  refine mapM_bind_congr fun indices count => ?_
  have given : (slice.indices ++ indices).length + more.length =
      slice.indices.length + (args ++ more).length := by
    simp only [List.length_append, count]
    omega
  rw [pure_bind, indexFurther, indexSlice, checkRank]
  simp only [given, if_neg (Nat.not_lt.mpr rest), pure_bind, bind_assoc, List.append_assoc]

/-- Stages that leave something to index make a slice with all their indices. -/
theorem indexStages_eq {stages : List (List IndexArg)}
    (few : slice.indices.length + stages.flatten.length < slice.tensor.rank) :
    indexStages slice stages = do
      let indices ← stages.flatten.mapM indexExpr
      return .slice ⟨slice.tensor, slice.indices ++ indices⟩ := by
  induction stages generalizing slice with
  | nil => simp [indexStages]
  | cons args rest ih =>
      rw [List.flatten_cons, List.length_append] at few
      rw [indexStages, indexSlice_of_lt (by omega), List.flatten_cons, List.mapM_append,
        bind_assoc, bind_assoc]
      refine mapM_bind_congr fun indices count => ?_
      have later : (⟨slice.tensor, slice.indices ++ indices⟩ : Slice).indices.length +
          rest.flatten.length < slice.tensor.rank := by
        simp only [List.length_append, count]
        omega
      rw [pure_bind]
      simp only
      rw [ih later, bind_assoc]
      simp only [pure_bind, List.append_assoc]

/-! ## Stores in stages -/

/-- Too many indices are refused before there is a value. -/
theorem storeSlice_of_gt (value : BuildM Expr)
    (many : slice.tensor.rank < slice.indices.length + args.length) :
    storeSlice value slice args = throw (.tooManyIndices slice.tensor.name slice.tensor.rank
      (slice.indices.length + args.length)) := by
  rw [storeSlice, checkRank, if_pos many]
  rfl

/-- Too few indices as well. -/
theorem storeSlice_of_lt (value : BuildM Expr)
    (few : slice.indices.length + args.length < slice.tensor.rank) :
    storeSlice value slice args = throw (.partialWrite slice.tensor.name slice.tensor.rank
      (slice.indices.length + args.length)) := by
  rw [storeSlice, checkRank, if_neg (Nat.not_lt.mpr (Nat.le_of_lt few)), pure_bind,
    if_pos (Nat.ne_of_lt few)]
  rfl

theorem storeSlice_of_eq (value : BuildM Expr)
    (full : slice.indices.length + args.length = slice.tensor.rank) :
    storeSlice value slice args = value >>= fun given =>
      storedValue slice.tensor given >>= fun stored => args.mapM indexExpr >>= fun indices =>
        finish fun id => .store id slice.tensor stored (slice.indices ++ indices) := by
  rw [storeSlice, checkRank, if_neg (Nat.not_lt.mpr (Nat.le_of_eq full)), pure_bind,
    if_neg (not_not_intro full)]

/-- A value as it is stored has the type of the tensor. -/
theorem storedValue_makes (tensor : Tensor) (value : Expr) (context : Context) :
    Ensures (storedValue tensor value) context
      (fun stored _ => stored.dtype? = some tensor.dtype) fun _ => True := by
  rw [storedValue, ensures_bind]
  refine ensures_valueType (fun dtype typed => ?_) trivial
  split
  · rename_i same
    exact same ▸ typed
  · rename_i different
    rw [ensures_bind, ensures_emit, castNode, ensures_bind]
    refine ensures_valueType (fun source known => ?_) trivial
    obtain rfl := Option.some.inj (known.symm.trans typed)
    rw [if_neg different]
    refine (finish_makes _ _).mono ?_ fun _ _ => trivial
    rintro _ _ ⟨id, rfl⟩
    rfl

/-- What becomes of a value and a slice with further indices. -/
theorem storeSlice_makes (value : BuildM Expr) (slice : Slice) (args : List IndexArg)
    (context : Context) :
    Ensures (storeSlice value slice args) context
      (fun made _ => ∃ id stored nodes,
        made = .store id slice.tensor stored (slice.indices ++ nodes) ∧
          stored.dtype? = some slice.tensor.dtype ∧
          List.Forall₂ (IndexArg.Becomes 0) args nodes) fun _ => True := by
  rcases Nat.lt_trichotomy (slice.indices.length + args.length) slice.tensor.rank with
    few | full | many
  · rw [storeSlice_of_lt value few]
    exact trivial
  · rw [storeSlice_of_eq value full, ensures_bind]
    cases given : value context with
    | error error after => simp only [Ensures, given]
    | ok expr middle =>
        simp only [Ensures, given]
        change Ensures _ middle _ _
        rw [ensures_bind]
        refine (storedValue_makes slice.tensor expr middle).mono (fun stored after typed => ?_)
          fun _ _ => trivial
        rw [ensures_bind]
        refine (indices_become args (Nat.zero_le _)).mono (fun nodes last becomes => ?_)
          fun _ _ => trivial
        refine (finish_makes _ last).mono ?_ fun _ _ => trivial
        rintro _ _ ⟨id, rfl⟩
        exact ⟨id, stored, nodes, rfl, typed, becomes⟩
  · rw [storeSlice_of_gt value many]
    exact trivial

/-- The nodes of indices are made in both contexts. -/
theorem indices_twins (sound : pool.Sound next) {expr other : Expr}
    (twins : Twins pool next expr first other second) (args others : List IndexArg) :
    SameOutcome (fun indices firstAfter otherIndices secondAfter =>
      List.Forall₂ (IndexArg.Becomes next) args indices ∧
        List.Forall₂ (IndexArg.Becomes next) others otherIndices ∧
        Twins pool next expr firstAfter other secondAfter)
      (args.mapM indexExpr first) (others.mapM indexExpr second) := by
  have paired := twins.paired
  obtain ⟨indices, firstAfter, left, becomes, renewed⟩ :=
    (indices_renew args twins.roomy paired.left).exists_ok
  obtain ⟨otherIndices, secondAfter, right, otherBecomes, otherRenewed⟩ :=
    (indices_renew others (paired.tally.roomy twins.roomy) paired.right).exists_ok
  rw [left, right]
  exact .ok ⟨becomes.imp fun _ _ later => later.mono paired.leftLe,
    otherBecomes.imp fun _ _ later => later.mono paired.rightLe,
    twins.renewed sound renewed otherRenewed⟩

/-- A store into a slice is the store into the tensor, with the indices of the slice before the
others. -/
theorem storeSlice_twins (sound : pool.Sound next) {value : BuildM Expr} {indices : List Expr}
    (members : ∀ arg ∈ args ++ more, pool.index arg)
    (listed : List.Forall₂ (IndexArg.Becomes next) args indices)
    (values : SameOutcome (Twins pool next) (value first) (value second)) :
    SameOutcome (fun expr _ other _ => expr.Renews next other)
      (storeSlice value ⟨tensor, indices⟩ more first)
      (store value tensor (args ++ more) second) := by
  have count : (⟨tensor, indices⟩ : Slice).indices.length + more.length =
      (Slice.whole tensor).indices.length + (args ++ more).length := by
    simp [Slice.whole, listed.length_eq]
  rw [store]
  rcases Nat.lt_trichotomy ((⟨tensor, indices⟩ : Slice).indices.length + more.length)
    tensor.rank with few | full | many
  · rw [storeSlice_of_lt value few, storeSlice_of_lt value (count ▸ few), count]
    exact .error _ _ _
  · rw [storeSlice_of_eq value full, storeSlice_of_eq value (count.symm.trans full)]
    refine values.bind fun _ _ _ _ made => ?_
    refine (storedValue_twins sound tensor made).bind fun stored _ otherStored _ twins => ?_
    refine (indices_twins sound twins more (args ++ more)).bind ?_
    rintro rest firstAfter others secondAfter ⟨becomes, otherBecomes, twins⟩
    have paired := twins.paired
    have whole : List.Forall₂ (IndexArg.Becomes next) (args ++ more) (indices ++ rest) :=
      List.rel_append listed becomes
    have inner : Alike pool next firstAfter.advance secondAfter.advance stored otherStored :=
      twins.alike.mono ⟨fun _ _ => rfl, Nat.le_succ _⟩ ⟨fun _ _ => rfl, Nat.le_succ _⟩
    refine (finish_alike sound paired (.store tensor (paired.left.pending paired.leftLe)
      (paired.right.pending paired.rightLe) twins.renews inner members whole otherBecomes)).mono ?_
    rintro _ _ _ _ ⟨rfl, rfl, -⟩
    exact .store tensor paired.leftLe paired.rightLe twins.renews
      (IndexArg.renews_of_becomes whole otherBecomes)
  · rw [storeSlice_of_gt value many, storeSlice_of_gt value (count ▸ many), count]
    exact .error _ _ _

/-- Expressions stay as they are. -/
theorem mapM_indexExpr_exprs (indices : List Expr) :
    (indices.map IndexArg.expr).mapM indexExpr = pure indices := by
  induction indices with
  | nil => rfl
  | cons index rest ih => rw [List.map_cons, List.mapM_cons, ih, indexExpr, pure_bind, pure_bind]

/-- Without literals among the indices of the slice nothing is made for it. -/
theorem storeSlice_exprs (value : BuildM Expr) (tensor : Tensor) (indices : List Expr)
    (more : List IndexArg) :
    storeSlice value ⟨tensor, indices⟩ more =
      store value tensor (indices.map IndexArg.expr ++ more) := by
  simp only [store, storeSlice, Slice.whole, List.length_nil, List.length_append, List.length_map,
    List.mapM_append, mapM_indexExpr_exprs, pure_bind, bind_assoc, Nat.zero_add, List.nil_append]

end BuildM

end AffineKernel
