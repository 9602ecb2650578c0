import AffineKernel.Proofs.Build.Frame
import AffineKernel.Proofs.Build.Pool

/-!
# Building that succeeds

An expression over loop variables and tensors (`Expr.isOver`) has no reduction,
store or call in it, and its accesses are affine. It can be built wherever the
loop variables are bound and the tensors have storage (`Context.Serves`): each
of its nodes then becomes a value, and nothing fails (`BuildM.build_succeeds`).
-/

set_option autoImplicit false

namespace AffineKernel

namespace Expr

/-- Whether an access is affine, over these loop variables. -/
def accesses (vars : List NodeId) (indices : List Expr) : Bool :=
  match Extraction.access indices [] with
  | .ok _ refs => refs.all fun ref => ref.id ∈ vars
  | .error .. => false

/-- Whether an expression has no reduction, store or call, and is over these loop variables and
tensors. -/
def isOver (vars tensors : List NodeId) : Expr → Bool
  | .constant .. => true
  | .loopVar id _ | .axis id _ _ _ => id ∈ vars
  | .load _ tensor indices => tensor.id ∈ tensors && accesses vars indices
  | .unary _ _ _ operand | .cast _ _ operand => operand.isOver vars tensors
  | .binary _ _ _ lhs rhs | .compare _ _ lhs rhs | .getBit _ lhs rhs =>
    lhs.isOver vars tensors && rhs.isOver vars tensors
  | .select _ _ condition thenValue elseValue =>
    condition.isOver vars tensors && thenValue.isOver vars tensors &&
      elseValue.isOver vars tensors
  | .store .. | .call .. | .reduce .. => false

end Expr

namespace Context

/-- A context in which expressions over these loop variables and tensors can be built. -/
structure Serves (points : List InsertionPoint) (vars tensors : List NodeId) (context : Context) :
    Prop where
  stack : context.stack = points
  placed : points ≠ []
  values : ∀ {id : NodeId} {binding : Binding}, context.binding? id = some binding →
    ∃ value, binding = .value value
  bound : ∀ id ∈ vars, context.binding? id ≠ none
  stored : ∀ id ∈ tensors, context.storage.find? id ≠ none

namespace Serves

variable {points : List InsertionPoint} {vars tensors : List NodeId} {context : Context}

theorem emit (serves : context.Serves points vars tensors) (event : Event) :
    (context.emit event).Serves points vars tensors :=
  { serves with }

/-- A node that is bound to a value. -/
theorem bind (serves : context.Serves points vars tensors) (id : NodeId) (value : Value) :
    (context.bind id (.value value)).Serves points (id :: vars) tensors where
  stack := serves.stack
  placed := serves.placed
  values := by
    intro other binding found
    rw [binding?_bind] at found
    split at found
    · exact ⟨value, (Option.some.inj found).symm⟩
    · exact serves.values found
  bound := by
    intro other listed
    rw [binding?_bind]
    split
    · exact Option.some_ne_none _
    · rename_i different
      rcases List.mem_cons.mp listed with rfl | old
      · exact absurd rfl different
      · exact serves.bound other old
  stored := serves.stored

/-- Fewer loop variables. -/
theorem forget {id : NodeId} (serves : context.Serves points (id :: vars) tensors) :
    context.Serves points vars tensors :=
  { serves with bound := fun other listed => serves.bound other (List.mem_cons_of_mem id listed) }

/-- A loop variable is bound to a value. -/
theorem value (serves : context.Serves points vars tensors) {id : NodeId} (listed : id ∈ vars) :
    ∃ value, context.binding? id = some (.value value) := by
  obtain ⟨binding, bound⟩ := Option.ne_none_iff_exists'.mp (serves.bound id listed)
  obtain ⟨value, rfl⟩ := serves.values bound
  exact ⟨value, bound⟩

end Serves

end Context

namespace BuildM

/-- An action ends in a result with `done`. -/
abbrev Succeeds {α : Type} (action : BuildM α) (context : Context) (done : α → Context → Prop) :
    Prop :=
  Ensures action context done fun _ => False

/-- An action that cannot fail has a result. -/
theorem Succeeds.exists_ok {α : Type} {context : Context} {action : BuildM α}
    {done : α → Context → Prop} (succeeds : Succeeds action context done) :
    ∃ a after, action context = .ok a after ∧ done a after := by
  cases outcome : action context with
  | error error after => simp only [Succeeds, Ensures, outcome] at succeeds
  | ok a after =>
      simp only [Succeeds, Ensures, outcome] at succeeds
      exact ⟨a, after, rfl, succeeds⟩

variable {points : List InsertionPoint} {vars tensors : List NodeId} {context : Context}

/-- An operation can be created wherever there is an insertion point. -/
theorem create_succeeds (draft : OpDraft) (serves : context.Serves points vars tensors) :
    Succeeds (create draft) context fun _ after => after.Serves points vars tensors := by
  refine ensures_create (fun point rest placed => { serves with }) fun empty => ?_
  exact serves.placed (serves.stack.symm.trans empty)

theorem createValue_succeeds (kind : OpKind) (operands : List Value) (type : ValueType)
    (attributes : List (String × Attribute)) (serves : context.Serves points vars tensors) :
    Succeeds (createValue kind operands type attributes) context
      fun _ after => after.Serves points vars tensors := by
  rw [Succeeds, createValue, ensures_bind]
  exact create_succeeds _ serves

/-- The operands of an access are there. -/
theorem loopValues_succeed (serves : context.Serves points vars tensors) {refs : List LoopRef}
    (known : ∀ ref ∈ refs, ref.id ∈ vars) :
    Succeeds (refs.mapM loopValue) context fun _ after => after = context := by
  induction refs with
  | nil => exact rfl
  | cons ref rest ih =>
      obtain ⟨value, bound⟩ := serves.value (known ref (by simp))
      have first : loopValue ref context = .ok value context := by
        rw [loopValue, EStateM.get_bind_apply, bound]
        rfl
      rw [List.mapM_cons, Succeeds, ensures_bind, Ensures, first]
      simp only [ensures_bind]
      refine (ih fun other listed => known other (List.mem_cons_of_mem ref listed)).mono ?_
        fun _ impossible => impossible
      exact fun _ _ same => same

/-- An affine access over the loop variables has a map and operands. -/
theorem affineAccess_succeeds (serves : context.Serves points vars tensors) {indices : List Expr}
    (affine : Expr.accesses vars indices = true) :
    Succeeds (affineAccess indices) context fun _ after => after.Serves points vars tensors := by
  rw [Expr.accesses] at affine
  rw [affineAccess]
  split at affine
  · rename_i map refs read
    rw [read]
    have known : ∀ ref ∈ refs, ref.id ∈ vars := by simpa using affine
    simp only [Succeeds, ensures_bind, ensures_emit]
    refine (loopValues_succeed (serves.emit _) known).mono ?_ fun _ impossible => impossible
    rintro operands - rfl
    exact serves.emit _
  · cases affine

/-- A tensor with storage has a buffer. -/
theorem storageOf_succeeds (serves : context.Serves points vars tensors) {tensor : Tensor}
    (listed : tensor.id ∈ tensors) :
    Succeeds (storageOf tensor) context fun _ after => after = context := by
  obtain ⟨value, stored⟩ := Option.ne_none_iff_exists'.mp (serves.stored tensor.id listed)
  have found : context.storage? tensor = some value := stored
  simp only [Succeeds, storageOf, ensures_bind, ensures_get, found, ensures_pure]

theorem emitLoad_succeeds (serves : context.Serves points vars tensors) {tensor : Tensor}
    {indices : List Expr} (listed : tensor.id ∈ tensors)
    (affine : Expr.accesses vars indices = true) :
    Succeeds (emitLoad tensor indices) context fun _ after => after.Serves points vars tensors := by
  rw [Succeeds, emitLoad, ensures_bind]
  refine (storageOf_succeeds serves listed).mono ?_ fun _ impossible => impossible
  rintro value after rfl
  rw [ensures_bind]
  refine (affineAccess_succeeds serves affine).mono ?_ fun _ impossible => impossible
  intro pair after reached
  exact createValue_succeeds _ _ _ _ reached

/-! ## Nodes -/

/-- What is built for a node: a value. -/
abbrev Yields (points : List InsertionPoint) (vars tensors : List NodeId) (action : BuildM Binding)
    (context : Context) : Prop :=
  Succeeds action context fun binding after =>
    (∃ value, binding = .value value) ∧ after.Serves points vars tensors

/-- A node is built once. -/
theorem onceValue_yields (serves : context.Serves points vars tensors) {id : NodeId} {name : String}
    {action : BuildM Value}
    (builds : Succeeds action (context.emit (.materialize id name))
      fun _ after => after.Serves points vars tensors) :
    Yields points vars tensors (onceValue id name action) context := by
  rw [Yields, Succeeds, onceValue, once, ensures_bind, ensures_get]
  cases bound : context.binding? id with
  | some binding => exact ⟨serves.values bound, serves⟩
  | none =>
      simp only [ensures_bind, ensures_emit, ensures_map, ensures_bindNode, ensures_pure]
      refine builds.mono (fun value after reached => ?_) fun _ impossible => impossible
      exact ⟨⟨value, rfl⟩, (reached.bind id value).forget⟩

/-- An operand is a value. -/
theorem operand_succeeds {α : Type} {action : BuildM Binding} {name : String}
    {next : Value → BuildM α} {done : α → Context → Prop}
    (yields : Yields points vars tensors action context)
    (later : ∀ value after, after.Serves points vars tensors → Succeeds (next value) after done) :
    Succeeds (action >>= fun binding => needValue name binding >>= next) context done := by
  rw [Succeeds, ensures_bind]
  refine yields.mono ?_ fun _ impossible => impossible
  rintro _ after ⟨⟨value, rfl⟩, reached⟩
  exact later value after reached

theorem valueType_succeeds {α : Type} {expr : Expr} {dtype : DType} {next : DType → BuildM α}
    {done : α → Context → Prop} (typed : expr.dtype? = some dtype)
    (later : Succeeds (next dtype) context done) :
    Succeeds (valueType expr >>= next) context done := by
  rw [Succeeds, ensures_bind]
  have known : valueType expr = pure dtype := by simp only [valueType, typed]
  rw [known]
  exact later

theorem emitBinary_succeeds {kind : BinaryKind} {dtype : DType} {op : OpKind}
    (lowers : kind.lower dtype = .ok op) (lhs rhs : Value)
    (serves : context.Serves points vars tensors) :
    Succeeds (emitBinary kind dtype lhs rhs) context
      fun _ after => after.Serves points vars tensors := by
  rw [Succeeds, emitBinary, lowers, ensures_bind, liftExcept, ensures_pure, ensures_bind]
  refine (createValue_succeeds _ _ _ _ serves).mono ?_ fun _ impossible => impossible
  intro result after reached
  split
  · exact createValue_succeeds _ _ _ _ reached
  · exact reached

theorem emitCast_succeeds (value : Value) (source target : DType)
    (serves : context.Serves points vars tensors) :
    Succeeds (emitCast value source target) context
      fun _ after => after.Serves points vars tensors := by
  rw [emitCast]
  split
  · exact serves
  · exact createValue_succeeds _ _ _ _ serves

/-- An expression over the loop variables and tensors of a context can be built there. -/
theorem build_succeeds {pool : Pool} {next : NodeId} (sound : pool.Sound next) : ∀ (expr : Expr)
    {context : Context}, expr.isOver vars tensors = true → pool.expr expr →
    context.Serves points vars tensors → Yields points vars tensors (build expr) context
  | .constant id dtype literal, context, _, _, serves => by
      rw [build]
      exact onceValue_yields serves (createValue_succeeds _ _ _ _ (serves.emit _))
  | .loopVar id name, context, covered, _, serves
  | .axis id name _ _, context, covered, _, serves => by
      obtain ⟨value, bound⟩ := serves.value (by simpa [Expr.isOver] using covered)
      rw [build, onceValue, once, Yields, Succeeds, ensures_bind, ensures_get, bound]
      exact ⟨⟨value, rfl⟩, serves⟩
  | .unary id dtype kind operand, context, covered, member, serves => by
      have below := sound.operands member operand (by simp [Expr.operands])
      rw [build]
      refine onceValue_yields serves (operand_succeeds
        (build_succeeds sound operand covered below (serves.emit _)) fun value after reached => ?_)
      exact createValue_succeeds _ _ _ _ reached
  | .binary id dtype kind lhs rhs, context, covered, member, serves => by
      have left := sound.operands member lhs (by simp [Expr.operands])
      have right := sound.operands member rhs (by simp [Expr.operands])
      obtain ⟨overLeft, overRight⟩ := Bool.and_eq_true_iff.mp covered
      obtain ⟨-, ⟨op, lowers⟩, -⟩ := sound.formed member
      rw [build]
      refine onceValue_yields serves (operand_succeeds
        (build_succeeds sound lhs overLeft left (serves.emit _)) fun a middle reached => ?_)
      refine operand_succeeds (build_succeeds sound rhs overRight right reached)
        fun b after reached => ?_
      exact emitBinary_succeeds lowers a b reached
  | .compare id kind lhs rhs, context, covered, member, serves => by
      have left := sound.operands member lhs (by simp [Expr.operands])
      have right := sound.operands member rhs (by simp [Expr.operands])
      obtain ⟨overLeft, overRight⟩ := Bool.and_eq_true_iff.mp covered
      obtain ⟨dtype, -, typed, -⟩ := sound.formed member
      rw [build]
      refine onceValue_yields serves (valueType_succeeds typed (operand_succeeds
        (build_succeeds sound lhs overLeft left (serves.emit _)) fun a middle reached => ?_))
      refine operand_succeeds (build_succeeds sound rhs overRight right reached)
        fun b after reached => ?_
      exact createValue_succeeds _ _ _ _ reached
  | .cast id dtype source, context, covered, member, serves => by
      have below := sound.operands member source (by simp [Expr.operands])
      obtain ⟨sourceType, typed, -⟩ := sound.formed member
      rw [build]
      refine onceValue_yields serves (valueType_succeeds typed (operand_succeeds
        (build_succeeds sound source covered below (serves.emit _)) fun value after reached => ?_))
      exact emitCast_succeeds value sourceType dtype reached
  | .load id tensor indices, context, covered, _, serves => by
      obtain ⟨listed, affine⟩ := Bool.and_eq_true_iff.mp covered
      rw [build]
      refine onceValue_yields serves (emitLoad_succeeds (serves.emit _) ?_ affine)
      exact of_decide_eq_true listed
  | .select id dtype condition thenValue elseValue, context, covered, member, serves => by
      have first := sound.operands member condition (by simp [Expr.operands])
      have second := sound.operands member thenValue (by simp [Expr.operands])
      have third := sound.operands member elseValue (by simp [Expr.operands])
      obtain ⟨overBoth, overThird⟩ := Bool.and_eq_true_iff.mp covered
      obtain ⟨overFirst, overSecond⟩ := Bool.and_eq_true_iff.mp overBoth
      rw [build]
      refine onceValue_yields serves (operand_succeeds
        (build_succeeds sound condition overFirst first (serves.emit _)) fun c middle reached => ?_)
      refine operand_succeeds (build_succeeds sound thenValue overSecond second reached)
        fun t last reached => ?_
      refine operand_succeeds (build_succeeds sound elseValue overThird third reached)
        fun e after reached => ?_
      exact createValue_succeeds _ _ _ _ reached
  | .getBit id source bit, context, covered, member, serves => by
      have left := sound.operands member source (by simp [Expr.operands])
      have right := sound.operands member bit (by simp [Expr.operands])
      obtain ⟨overLeft, overRight⟩ := Bool.and_eq_true_iff.mp covered
      rw [build]
      refine onceValue_yields serves (operand_succeeds
        (build_succeeds sound source overLeft left (serves.emit _)) fun v middle reached => ?_)
      refine operand_succeeds (build_succeeds sound bit overRight right reached)
        fun b after reached => ?_
      exact createValue_succeeds _ _ _ _ reached
  | .store .., _, covered, _, _ | .call .., _, covered, _, _ | .reduce .., _, covered, _, _ => by
      cases covered

end BuildM

end AffineKernel
