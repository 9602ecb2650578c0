import AffineKernel.Proofs.Build.Access
import AffineKernel.Proofs.Build.Frame
import AffineKernel.Proofs.Build.Pool

/-!
# Building in two contexts

Whether building succeeds, and with which error it fails, does not depend on the
numbers of operations and blocks, nor on where the insertion points are. It
depends on what of a context a pool can see: whether there is an insertion
point, which tensors have storage, which nodes of the pool are bound, and whether
to a value or to an operation. Two contexts that agree in this *tally*
(`Context.Tally`).

Two actions *agree* if from contexts that tally both succeed, with results that
are related and in contexts that tally again, or both fail with the same error
(`BuildM.Agree`). Two steps of building agree whatever values they are given, so
building a node of the pool agrees with itself (`BuildM.build_agree`). The nest
of a reduction undoes its bindings when it is left; this is the same on both
sides because the nodes bound in it are (`Together.ids`).
-/

set_option autoImplicit false

namespace AffineKernel

/-- Whether a binding is that of a value. -/
def Binding.isValue (binding : Binding) : Bool := binding.value?.isSome

namespace Context

/-- Two contexts agree in what a pool can see. -/
structure Tally (pool : Pool) (first second : Context) : Prop where
  mode : first.mode = second.mode
  depth : first.stack.length = second.stack.length
  regions : first.regions = second.regions
  stored : ∀ tensor, first.hasStorage tensor = second.hasStorage tensor
  bound : ∀ {expr : Expr}, pool.expr expr →
    (first.binding? expr.id).map Binding.isValue = (second.binding? expr.id).map Binding.isValue

/-- Only nodes of a pool have received or lost a binding. -/
def Spared (pool : Pool) (before after : Context) : Prop :=
  ∀ id, (∀ expr, pool.expr expr → expr.id ≠ id) → after.binding? id = before.binding? id

/-- Two contexts have come to tally by steps that bound the same nodes of a pool. -/
structure Together (pool : Pool) (first second firstAfter secondAfter : Context) : Prop where
  tally : firstAfter.Tally pool secondAfter
  ids : ∃ ids, firstAfter.regionNodes = ids ++ first.regionNodes ∧
    secondAfter.regionNodes = ids ++ second.regionNodes ∧
    ∀ id ∈ ids, ∃ expr, pool.expr expr ∧ expr.id = id
  left : Spared pool first firstAfter
  right : Spared pool second secondAfter
  leftId : firstAfter.nextId = first.nextId
  rightId : secondAfter.nextId = second.nextId

variable {pool : Pool} {first second firstAfter secondAfter firstLast secondLast : Context}

namespace Tally

theorem symm (tally : first.Tally pool second) : second.Tally pool first where
  mode := tally.mode.symm
  depth := tally.depth.symm
  regions := tally.regions.symm
  stored tensor := (tally.stored tensor).symm
  bound member := (tally.bound member).symm

theorem trans (tally : first.Tally pool second) {third : Context}
    (further : second.Tally pool third) : first.Tally pool third where
  mode := tally.mode.trans further.mode
  depth := tally.depth.trans further.depth
  regions := tally.regions.trans further.regions
  stored tensor := (tally.stored tensor).trans (further.stored tensor)
  bound member := (tally.bound member).trans (further.bound member)

theorem isBound (tally : first.Tally pool second) {expr : Expr} (member : pool.expr expr) :
    first.isBound expr.id = second.isBound expr.id := by
  have same := congrArg Option.isSome (tally.bound member)
  simpa [Context.isBound] using same

/-- There is an insertion point in both contexts, or in neither. -/
theorem stack_cases (tally : first.Tally pool second) :
    (first.stack = [] ∧ second.stack = []) ∨ ∃ point rest other others,
      first.stack = point :: rest ∧ second.stack = other :: others ∧
        rest.length = others.length := by
  have depth := tally.depth
  cases left : first.stack with
  | nil =>
      rw [left, List.length_nil, eq_comm, List.length_eq_zero_iff] at depth
      exact .inl ⟨rfl, depth⟩
  | cons point rest =>
      cases right : second.stack with
      | nil => simp [left, right] at depth
      | cons other others =>
          rw [left, right] at depth
          exact .inr ⟨point, rest, other, others, rfl, rfl, Nat.succ.inj depth⟩

/-- Steps that bind nothing. -/
theorem still (tally : firstAfter.Tally pool secondAfter)
    (left : firstAfter.regionNodes = first.regionNodes)
    (right : secondAfter.regionNodes = second.regionNodes)
    (leftBound : firstAfter.bindings = first.bindings)
    (rightBound : secondAfter.bindings = second.bindings)
    (leftId : firstAfter.nextId = first.nextId) (rightId : secondAfter.nextId = second.nextId) :
    Together pool first second firstAfter secondAfter where
  tally := tally
  ids := ⟨[], left, right, by simp⟩
  left id _ := congrArg (Table.find? · id) leftBound
  right id _ := congrArg (Table.find? · id) rightBound
  leftId := leftId
  rightId := rightId

end Tally

theorem Together.trans (before : Together pool first second firstAfter secondAfter)
    (later : Together pool firstAfter secondAfter firstLast secondLast) :
    Together pool first second firstLast secondLast where
  tally := later.tally
  ids := by
    obtain ⟨ids, left, right, known⟩ := before.ids
    obtain ⟨more, leftMore, rightMore, moreKnown⟩ := later.ids
    exact ⟨more ++ ids, by rw [leftMore, left, List.append_assoc],
      by rw [rightMore, right, List.append_assoc],
      List.forall_mem_append.mpr ⟨moreKnown, known⟩⟩
  left id apart := (later.left id apart).trans (before.left id apart)
  right id apart := (later.right id apart).trans (before.right id apart)
  leftId := later.leftId.trans before.leftId
  rightId := later.rightId.trans before.rightId

/-- Binding a node on both sides. -/
theorem Tally.bind (tally : first.Tally pool second) {node : Expr} (known : pool.expr node)
    {binding other : Binding} (same : binding.isValue = other.isValue) :
    Together pool first second (first.bind node.id binding) (second.bind node.id other) where
  tally :=
    { tally with
      bound := by
        intro expr member
        rw [binding?_bind, binding?_bind]
        split
        · simp [same]
        · exact tally.bound member }
  ids := by
    simp only [Context.bind, tally.regions]
    split
    · exact ⟨[node.id], rfl, rfl, List.forall_mem_singleton.mpr ⟨node, known, rfl⟩⟩
    · exact ⟨[], rfl, rfl, by simp⟩
  left id apart := by rw [binding?_bind, if_neg (apart node known)]
  right id apart := by rw [binding?_bind, if_neg (apart node known)]
  leftId := rfl
  rightId := rfl

/-- Leaving a region on both sides. -/
theorem Together.leave
    (inside : Together pool first.enterRegion second.enterRegion firstAfter secondAfter)
    (tally : first.Tally pool second) :
    Together pool first second (firstAfter.leaveRegion first.mark)
      (secondAfter.leaveRegion second.mark) := by
  obtain ⟨ids, left, right, known⟩ := inside.ids
  have left : firstAfter.regionNodes = ids ++ first.regionNodes := left
  have right : secondAfter.regionNodes = ids ++ second.regionNodes := right
  have leftFound : ∀ id, (firstAfter.leaveRegion first.mark).binding? id =
      if id ∈ ids then none else firstAfter.binding? id := fun id => by
    simp [Context.binding?, leaveRegion, mark, left, Table.find?_eraseAll]
  have rightFound : ∀ id, (secondAfter.leaveRegion second.mark).binding? id =
      if id ∈ ids then none else secondAfter.binding? id := fun id => by
    simp [Context.binding?, leaveRegion, mark, right, Table.find?_eraseAll]
  have others : ∀ id, (∀ expr, pool.expr expr → expr.id ≠ id) → id ∉ ids := by
    intro id apart listed
    obtain ⟨expr, member, same⟩ := known id listed
    exact apart expr member same
  refine
    { tally :=
        { mode := inside.tally.mode
          depth := ?_
          regions := ?_
          stored := inside.tally.stored
          bound := ?_ }
      ids := ⟨[], by simp [leaveRegion, mark, left], by simp [leaveRegion, mark, right], by simp⟩
      left := fun id apart => by
        rw [leftFound, if_neg (others id apart)]
        exact inside.left id apart
      right := fun id apart => by
        rw [rightFound, if_neg (others id apart)]
        exact inside.right id apart
      leftId := inside.leftId
      rightId := inside.rightId }
  · have depth := inside.tally.depth
    have base := tally.depth
    simp only [leaveRegion, truncate, mark, Context.depth, List.length_drop]
    omega
  · have regions := inside.tally.regions
    simp only [leaveRegion, regions]
  · intro expr member
    rw [leftFound, rightFound]
    split
    · rfl
    · exact inside.tally.bound member

/-! ## Nodes that can be materialized -/

variable {next : NodeId}

mutual

/-- Whether a node can be materialized is the same in contexts that tally. -/
theorem isReady_eq (sound : pool.Sound next) (tally : first.Tally pool second) : ∀ expr : Expr,
    pool.expr expr → first.isReady expr = second.isReady expr
  | .constant .., _ => rfl
  | .loopVar _ _, member | .axis _ _ _ _, member | .reduce _ _ _ _ _, member => by
      rw [isReady, isReady]
      exact tally.isBound member
  | .unary id _ _ operand, member | .cast id _ operand, member => by
      have same : first.isBound id = second.isBound id := tally.isBound member
      rw [isReady, isReady, same,
        isReady_eq sound tally operand (sound.operands member _ (by simp [Expr.operands]))]
  | .binary id _ _ lhs rhs, member | .compare id _ lhs rhs, member
  | .getBit id lhs rhs, member => by
      have same : first.isBound id = second.isBound id := tally.isBound member
      rw [isReady, isReady, same,
        isReady_eq sound tally lhs (sound.operands member _ (by simp [Expr.operands])),
        isReady_eq sound tally rhs (sound.operands member _ (by simp [Expr.operands]))]
  | .select id _ condition thenValue elseValue, member => by
      have same : first.isBound id = second.isBound id := tally.isBound member
      rw [isReady, isReady, same,
        isReady_eq sound tally condition (sound.operands member _ (by simp [Expr.operands])),
        isReady_eq sound tally thenValue (sound.operands member _ (by simp [Expr.operands])),
        isReady_eq sound tally elseValue (sound.operands member _ (by simp [Expr.operands]))]
  | .load id tensor indices, member => by
      have same : first.isBound id = second.isBound id := tally.isBound member
      rw [isReady, isReady, same, tally.stored,
        allReady_eq sound tally indices fun index listed => sound.operands member index listed]
  | .store id tensor value indices, member => by
      have same : first.isBound id = second.isBound id := tally.isBound member
      rw [isReady, isReady, same, tally.stored,
        isReady_eq sound tally value (sound.operands member _ (by simp [Expr.operands])),
        allReady_eq sound tally indices fun index listed =>
          sound.operands member index (List.mem_cons_of_mem _ listed)]
  | .call id _ _ args, member => by
      have same : first.isBound id = second.isBound id := tally.isBound member
      have stored : first.hasStorage = second.hasStorage := funext tally.stored
      rw [isReady, isReady, same, stored,
        argsReady_eq sound tally args fun value listed => sound.operands member value listed]

theorem allReady_eq (sound : pool.Sound next) (tally : first.Tally pool second) :
    ∀ exprs : List Expr, (∀ expr ∈ exprs, pool.expr expr) →
      first.allReady exprs = second.allReady exprs
  | [], _ => rfl
  | expr :: rest, members => by
      rw [allReady, allReady, isReady_eq sound tally expr (members expr (by simp)),
        allReady_eq sound tally rest fun other listed => members other (by simp [listed])]

theorem argsReady_eq (sound : pool.Sound next) (tally : first.Tally pool second) :
    ∀ args : List CallArg, (∀ expr ∈ CallArg.exprs args, pool.expr expr) →
      first.argsReady args = second.argsReady args
  | [], _ => rfl
  | .tensor _ :: rest, members => by
      rw [argsReady, argsReady, argsReady_eq sound tally rest members]
  | .expr value :: rest, members => by
      rw [argsReady, argsReady,
        isReady_eq sound tally value (members value (by simp [CallArg.exprs])),
        argsReady_eq sound tally rest fun other listed =>
          members other (by simp [CallArg.exprs, listed])]

end

end Context

/-! ## Actions that agree -/

/-- Two outcomes are the same: both are results that are related, or both are the same error. -/
inductive SameOutcome {α β : Type} (related : α → Context → β → Context → Prop) :
    EStateM.Result BuildError Context α → EStateM.Result BuildError Context β → Prop where
  | ok {a : α} {b : β} {first second : Context} (holds : related a first b second) :
      SameOutcome related (.ok a first) (.ok b second)
  | error (error : BuildError) (first second : Context) :
      SameOutcome related (.error error first) (.error error second)

theorem SameOutcome.mono {α β : Type} {related weaker : α → Context → β → Context → Prop}
    {left : EStateM.Result BuildError Context α} {right : EStateM.Result BuildError Context β}
    (same : SameOutcome related left right)
    (implied : ∀ a first b second, related a first b second → weaker a first b second) :
    SameOutcome weaker left right := by
  cases same with
  | ok holds => exact .ok (implied _ _ _ _ holds)
  | error error first second => exact .error error first second

theorem SameOutcome.of_eq {α : Type} {related : α → Context → α → Context → Prop}
    {left right : EStateM.Result BuildError Context α} (same : left = right)
    (refl : ∀ a context, related a context a context) : SameOutcome related left right := by
  subst same
  cases left with
  | ok a context => exact .ok (refl a context)
  | error error context => exact .error error context context

/-- The results and the contexts of two outcomes that are the same. -/
theorem SameOutcome.and_ok {α β : Type} {related : α → Context → β → Context → Prop}
    {left : EStateM.Result BuildError Context α} {right : EStateM.Result BuildError Context β}
    (same : SameOutcome related left right) :
    SameOutcome (fun a first b second =>
      related a first b second ∧ left = .ok a first ∧ right = .ok b second) left right := by
  cases same with
  | ok holds => exact .ok ⟨holds, rfl, rfl⟩
  | error error first second => exact .error error first second

/-- Outcomes of two steps after each other. -/
theorem SameOutcome.bind {α α' β β' : Type} {left : BuildM α} {right : BuildM β}
    {leftNext : α → BuildM α'} {rightNext : β → BuildM β'} {first second : Context}
    {reached : α → Context → β → Context → Prop} {done : α' → Context → β' → Context → Prop}
    (steps : SameOutcome reached (left first) (right second))
    (later : ∀ a firstAfter b secondAfter, reached a firstAfter b secondAfter →
      SameOutcome done (leftNext a firstAfter) (rightNext b secondAfter)) :
    SameOutcome done ((left >>= leftNext) first) ((right >>= rightNext) second) := by
  simp only [Bind.bind, EStateM.bind]
  generalize left first = leftRan at steps ⊢
  generalize right second = rightRan at steps ⊢
  cases steps with
  | ok holds => exact later _ _ _ _ holds
  | error error first second => exact .error error first second

namespace BuildM

open Context

variable {α α' β β' : Type} {pool : Pool}

/-- From contexts that tally, two actions have the same outcome, and contexts that tally again. -/
def Agree (pool : Pool) (related : α → β → Prop) (left : BuildM α) (right : BuildM β) : Prop :=
  ∀ first second, first.Tally pool second →
    SameOutcome (fun a firstAfter b secondAfter =>
      related a b ∧ Together pool first second firstAfter secondAfter) (left first) (right second)

/-- Two actions agree, whatever their results. -/
abbrev Concur (pool : Pool) (left : BuildM α) (right : BuildM β) : Prop :=
  Agree pool (fun _ _ => True) left right

variable {related : α → β → Prop} {other : α' → β' → Prop}

namespace Agree

theorem pure {a : α} {b : β} (holds : related a b) :
    Agree pool related (Pure.pure a : BuildM α) (Pure.pure b) := fun _ _ tally =>
  .ok ⟨holds, tally.still rfl rfl rfl rfl rfl rfl⟩

theorem throw (error : BuildError) :
    Agree pool related (MonadExcept.throw error : BuildM α) (MonadExcept.throw error : BuildM β) :=
  fun first second _ => .error error first second

theorem bind {left : BuildM α} {right : BuildM β} {leftNext : α → BuildM α'}
    {rightNext : β → BuildM β'} (agree : Agree pool related left right)
    (later : ∀ a b, related a b → Agree pool other (leftNext a) (rightNext b)) :
    Agree pool other (left >>= leftNext) (right >>= rightNext) := fun first second tally =>
  (agree first second tally).bind fun a firstAfter b secondAfter holds =>
    (later a b holds.1 firstAfter secondAfter holds.2.tally).mono
      fun _ _ _ _ further => ⟨further.1, holds.2.trans further.2⟩

theorem map {left : BuildM α} {right : BuildM β} (f : α → α') (g : β → β')
    (agree : Agree pool related left right) (holds : ∀ a b, related a b → other (f a) (g b)) :
    Agree pool other (f <$> left) (g <$> right) := by
  rw [map_eq_pure_bind, map_eq_pure_bind]
  exact agree.bind fun a b known => .pure (holds a b known)

/-- An action that goes on as the context is. -/
theorem get_bind {left : Context → BuildM α} {right : Context → BuildM β}
    (agree : ∀ first second : Context, first.Tally pool second →
      Agree pool related (left first) (right second)) :
    Agree pool related (get >>= left) (get >>= right) :=
  fun first second tally => agree first second tally first second tally

theorem emit (event other : Event) : Concur pool (BuildM.emit event) (BuildM.emit other) :=
  fun _ _ tally => .ok ⟨trivial, Tally.still { tally with } rfl rfl rfl rfl rfl rfl⟩

theorem bindNode {expr : Expr} (member : pool.expr expr) {binding other : Binding}
    (same : binding.isValue = other.isValue) :
    Concur pool (BuildM.bindNode expr.id binding) (BuildM.bindNode expr.id other) :=
  fun _ _ tally => .ok ⟨trivial, tally.bind member same⟩

theorem savePoint (point other : InsertionPoint) :
    Concur pool (BuildM.savePoint point) (BuildM.savePoint other) := fun _ _ tally =>
  have deeper := congrArg Nat.succ tally.depth
  .ok ⟨trivial, Tally.still { tally with depth := deeper } rfl rfl rfl rfl rfl rfl⟩

theorem liftExcept (checked : Except BuildError α) :
    Agree pool Eq (BuildM.liftExcept checked) (BuildM.liftExcept checked) := by
  cases checked with
  | ok a => exact .pure rfl
  | error error => exact .throw error

theorem valueType (expr : Expr) :
    Agree pool Eq (BuildM.valueType expr) (BuildM.valueType expr) := by
  unfold BuildM.valueType
  split
  · exact .pure rfl
  · exact .throw _

theorem inRegion {left : BuildM α} {right : BuildM β} (agree : Agree pool related left right) :
    Agree pool related (BuildM.inRegion left) (BuildM.inRegion right) := by
  intro first second tally
  have entered : first.enterRegion.Tally pool second.enterRegion :=
    { tally with regions := congrArg Nat.succ tally.regions }
  have steps := agree _ _ entered
  simp only [BuildM.inRegion]
  generalize left first.enterRegion = leftRan at steps ⊢
  generalize right second.enterRegion = rightRan at steps ⊢
  cases steps with
  | ok holds => exact .ok ⟨holds.1, holds.2.leave tally⟩
  | error error firstAfter secondAfter => exact .error error _ _

theorem mapM {actions : α → BuildM β} {others : α → BuildM β'} (list : List α)
    (agree : ∀ a ∈ list, Concur pool (actions a) (others a)) :
    Concur pool (list.mapM actions) (list.mapM others) := by
  induction list with
  | nil => exact .pure trivial
  | cons a rest ih =>
      rw [List.mapM_cons, List.mapM_cons]
      refine (agree a (by simp)).bind fun _ _ _ => ?_
      exact (ih fun later member => agree later (by simp [member])).bind fun _ _ _ => .pure trivial

end Agree

/-! ### Operations -/

theorem create_of_nil (draft : OpDraft) {context : Context} (stack : context.stack = []) :
    create draft context = .error .emptyStack context := by
  simp only [create, currentPoint, bind_assoc, EStateM.get_bind_apply, stack]
  rfl

theorem create_of_cons (draft : OpDraft) {context : Context} {point : InsertionPoint}
    {rest : List InsertionPoint} (stack : context.stack = point :: rest) :
    create draft context = .ok ⟨context.module.ops.size⟩
      ({ context with module := (context.module.create draft point).2 }.emit
        (.createOperation ⟨context.module.ops.size⟩ draft.kind point.block)) := by
  simp only [create, currentPoint, bind_assoc, EStateM.get_bind_apply, stack, pure_bind]
  rfl

theorem restorePoint_of_nil {context : Context} (stack : context.stack = []) :
    restorePoint context = .error .emptyStack context := by
  simp only [restorePoint, EStateM.get_bind_apply, stack]
  rfl

theorem restorePoint_of_cons {context : Context} {point : InsertionPoint}
    {rest : List InsertionPoint} (stack : context.stack = point :: rest) :
    restorePoint context = .ok point
      ({ context with stack := rest }.emit (.restorePoint point.block rest.length)) := by
  simp only [restorePoint, EStateM.get_bind_apply, stack]
  rfl

theorem create_agree (draft other : OpDraft) : Concur pool (create draft) (create other) := by
  intro first second tally
  obtain ⟨left, right⟩ | ⟨_, _, _, _, left, right, -⟩ := tally.stack_cases
  · rw [create_of_nil _ left, create_of_nil _ right]
    exact .error _ _ _
  · rw [create_of_cons _ left, create_of_cons _ right]
    exact .ok ⟨trivial, Tally.still { tally with } rfl rfl rfl rfl rfl rfl⟩

theorem createValue_agree (kind otherKind : OpKind) (operands others : List Value)
    (type otherType : ValueType) (attributes otherAttributes : List (String × Attribute)) :
    Concur pool (createValue kind operands type attributes)
      (createValue otherKind others otherType otherAttributes) :=
  (create_agree _ _).bind fun _ _ _ => .pure trivial

theorem createRegion_agree (kind otherKind : OpKind) (operands others : List Value)
    (attributes otherAttributes : List (String × Attribute)) (args otherArgs : List ValueType) :
    Concur pool (createRegion kind operands attributes args)
      (createRegion otherKind others otherAttributes otherArgs) :=
  .get_bind fun _ _ _ => (create_agree _ _).bind fun _ _ _ => .pure trivial

theorem emitYield_agree : Concur pool emitYield emitYield :=
  (create_agree _ _).bind fun _ _ _ => .pure trivial

theorem restorePoint_agree : Concur pool restorePoint restorePoint := by
  intro first second tally
  obtain ⟨left, right⟩ | ⟨_, _, _, _, left, right, depth⟩ := tally.stack_cases
  · rw [restorePoint_of_nil left, restorePoint_of_nil right]
    exact .error _ _ _
  · rw [restorePoint_of_cons left, restorePoint_of_cons right]
    exact .ok ⟨trivial, Tally.still { tally with depth } rfl rfl rfl rfl rfl rfl⟩

theorem closeLoops_agree : ∀ count : Nat, Concur pool (closeLoops count) (closeLoops count)
  | 0 => .pure trivial
  | count + 1 => emitYield_agree.bind fun _ _ _ =>
      restorePoint_agree.bind fun _ _ _ => closeLoops_agree count

theorem emitLoop_agree (lower upper otherLower otherUpper : LoopBound) (spec : LoopSpec) :
    Concur pool (emitLoop lower upper spec) (emitLoop otherLower otherUpper spec) :=
  (createRegion_agree _ _ _ _ _ _ _ _).bind fun _ _ _ =>
    (Agree.emit _ _).bind fun _ _ _ => .pure trivial

theorem emitCast_agree (value other : Value) (source target : DType) :
    Concur pool (emitCast value source target) (emitCast other source target) := by
  unfold emitCast
  split
  · exact .pure trivial
  · exact createValue_agree _ _ _ _ _ _ _ _

theorem emitBinary_agree (kind : BinaryKind) (dtype : DType) (lhs rhs otherLhs otherRhs : Value) :
    Concur pool (emitBinary kind dtype lhs rhs) (emitBinary kind dtype otherLhs otherRhs) := by
  refine (Agree.liftExcept (kind.lower dtype)).bind ?_
  rintro op - rfl
  refine (createValue_agree _ _ _ _ _ _ _ _).bind fun _ _ _ => ?_
  split
  · exact createValue_agree _ _ _ _ _ _ _ _
  · exact .pure trivial

theorem needValue_agree (name : String) {binding other : Binding}
    (same : binding.isValue = other.isValue) :
    Concur pool (needValue name binding) (needValue name other) := by
  cases binding <;> cases other <;> first
    | exact .pure trivial
    | exact .throw _
    | cases same

/-! ### Accesses -/

theorem storageOf_agree (tensor : Tensor) : Concur pool (storageOf tensor) (storageOf tensor) := by
  refine .get_bind fun first second tally => ?_
  have stored := tally.stored tensor
  rw [hasStorage, hasStorage] at stored
  cases left : first.storage? tensor <;> cases right : second.storage? tensor <;>
    simp [left, right] at stored
  · exact .throw _
  · exact .pure trivial

theorem loopValue_agree {ref : LoopRef} (stands : Extraction.Stands pool.expr ref) :
    Concur pool (loopValue ref) (loopValue ref) := by
  obtain ⟨expr, member, same, -⟩ := stands
  refine .get_bind fun first second tally => ?_
  have bound := tally.bound member
  rw [same] at bound
  have values : ((first.binding? ref.id).bind Binding.value?).isSome =
      ((second.binding? ref.id).bind Binding.value?).isSome := by
    cases left : first.binding? ref.id <;> cases right : second.binding? ref.id <;>
      simp [left, right, Binding.isValue] at bound ⊢
    exact bound
  cases left : (first.binding? ref.id).bind Binding.value? <;>
    cases right : (second.binding? ref.id).bind Binding.value? <;> simp [left, right] at values
  · exact .throw _
  · exact .pure trivial

section Access

variable {indices : List Expr} (stand : ∀ map refs, Extraction.access indices [] = .ok map refs →
  ∀ ref ∈ refs, Extraction.Stands pool.expr ref)
include stand

theorem affineAccess_agree : Concur pool (affineAccess indices) (affineAccess indices) := by
  unfold affineAccess
  split
  · exact .throw _
  · rename_i map refs read
    refine (Agree.emit _ _).bind fun _ _ _ => ?_
    exact (Agree.mapM refs fun ref listed => loopValue_agree (stand map refs read ref listed)).bind
      fun _ _ _ => .pure trivial

theorem emitLoad_agree (tensor : Tensor) :
    Concur pool (emitLoad tensor indices) (emitLoad tensor indices) :=
  (storageOf_agree tensor).bind fun _ _ _ => (affineAccess_agree stand).bind
    fun _ _ _ => createValue_agree _ _ _ _ _ _ _ _

theorem emitStore_agree (value other : Value) (tensor : Tensor) :
    Concur pool (emitStore value tensor indices) (emitStore other tensor indices) :=
  (storageOf_agree tensor).bind fun _ _ _ => (affineAccess_agree stand).bind
    fun _ _ _ => create_agree _ _

end Access

/-! ### Nodes -/

/-- What two steps bind a node to is a value in both, or an operation in both. -/
abbrev Binds (pool : Pool) (left right : BuildM Binding) : Prop :=
  Agree pool (fun binding other => binding.isValue = other.isValue) left right

theorem emitCall_agree (dtype : Option DType) (callee : String) (args others : List Value) :
    Binds pool (emitCall dtype callee args) (emitCall dtype callee others) := by
  refine (create_agree _ _).bind fun _ _ _ => .pure ?_
  split <;> rfl

theorem once_agree {expr : Expr} (member : pool.expr expr) (name : String)
    {left right : BuildM Binding} (agree : Binds pool left right) :
    Binds pool (once expr.id name left) (once expr.id name right) := by
  refine .get_bind fun first second tally => ?_
  have bound := tally.bound member
  cases leftFound : first.binding? expr.id with
  | none =>
      cases rightFound : second.binding? expr.id with
      | some _ => simp [leftFound, rightFound] at bound
      | none =>
          refine (Agree.emit _ _).bind fun _ _ _ => agree.bind fun binding other same => ?_
          exact (Agree.bindNode member same).bind fun _ _ _ => .pure same
  | some binding =>
      cases rightFound : second.binding? expr.id with
      | none => simp [leftFound, rightFound] at bound
      | some other => exact .pure (by simpa [leftFound, rightFound] using bound)

theorem onceValue_agree {expr : Expr} (member : pool.expr expr) (name : String)
    {left right : BuildM Value} (agree : Concur pool left right) :
    Binds pool (onceValue expr.id name left) (onceValue expr.id name right) :=
  once_agree member name (agree.map _ _ fun _ _ _ => rfl)

/-- The value of an operand. -/
theorem operand_agree {expr : Expr} (agree : Binds pool (build expr) (build expr))
    {left : Value → BuildM α} {right : Value → BuildM β}
    (later : ∀ value other, Agree pool related (left value) (right other)) :
    Agree pool related (build expr >>= fun binding => needValue expr.name binding >>= left)
      (build expr >>= fun binding => needValue expr.name binding >>= right) :=
  agree.bind fun _ _ same => (needValue_agree _ same).bind fun value other _ => later value other

/-! ### Reductions -/

theorem accumulatorStore_agree (acc other : Accumulator) (value otherValue : Value) :
    Concur pool (acc.store value) (other.store otherValue) :=
  (create_agree _ _).bind fun _ _ _ => .pure trivial

theorem openAccumulator_agree (kind : ReduceKind) (dtype : DType) :
    Concur pool (openAccumulator kind dtype) (openAccumulator kind dtype) :=
  (createValue_agree _ _ _ _ _ _ _ _).bind fun _ _ _ =>
    (createValue_agree _ _ _ _ _ _ _ _).bind fun _ _ _ =>
      (createValue_agree _ _ _ _ _ _ _ _).bind fun _ _ _ =>
        (accumulatorStore_agree _ _ _ _).bind fun _ _ _ => .pure trivial

/-- The bounds of an axis are built alike in contexts that tally. -/
def AxisAgrees (pool : Pool) : Expr → Prop
  | .axis _ _ lower upper =>
    Concur pool (buildBound lower) (buildBound lower) ∧
      Concur pool (buildBound upper) (buildBound upper)
  | _ => True

theorem openAxes_agree : ∀ axes : List Expr, (∀ axis ∈ axes, pool.expr axis) →
    (∀ axis ∈ axes, AxisAgrees pool axis) → Concur pool (openAxes axes) (openAxes axes)
  | [], _, _ => by
      rw [openAxes]
      exact .pure trivial
  | .axis id name lower upper :: rest, members, agree => by
      have bounds : AxisAgrees pool (.axis id name lower upper) := agree _ List.mem_cons_self
      rw [openAxes]
      refine bounds.1.bind fun low otherLow _ => bounds.2.bind fun high otherHigh _ => ?_
      refine (emitLoop_agree _ _ _ _ _).bind fun header other _ => ?_
      have counts : (Binding.value header.counter).isValue =
        (Binding.value other.counter).isValue := rfl
      refine (Agree.bindNode (members _ List.mem_cons_self) counts).bind fun _ _ _ => ?_
      refine (Agree.savePoint _ _).bind fun _ _ _ => ?_
      exact openAxes_agree rest (fun axis later => members axis (List.mem_cons_of_mem _ later))
        fun axis later => agree axis (List.mem_cons_of_mem _ later)
  | .constant .. :: _, _, _ | .loopVar .. :: _, _, _ | .unary .. :: _, _, _
  | .binary .. :: _, _, _ | .compare .. :: _, _, _ | .cast .. :: _, _, _ | .load .. :: _, _, _
  | .store .. :: _, _, _ | .select .. :: _, _, _ | .call .. :: _, _, _ | .getBit .. :: _, _, _
  | .reduce .. :: _, _, _ =>
      fun first second _ => .error _ first second

theorem reduceNest_agree (acc other : Accumulator) (kind : ReduceKind) (dtype : DType)
    {body : Expr} {axes : List Expr} (built : Binds pool (build body) (build body))
    (members : ∀ axis ∈ axes, pool.expr axis) (agree : ∀ axis ∈ axes, AxisAgrees pool axis) :
    Concur pool (reduceNest acc kind dtype body axes) (reduceNest other kind dtype body axes) := by
  refine (openAxes_agree axes members agree).bind fun _ _ _ => ?_
  refine (Agree.valueType body).bind ?_
  rintro actual - rfl
  dsimp only
  split
  · exact .throw _
  refine operand_agree built fun data otherData => ?_
  refine (createValue_agree _ _ _ _ _ _ _ _).bind fun current otherCurrent _ => ?_
  refine (createValue_agree _ _ _ _ _ _ _ _).bind fun combined otherCombined _ => ?_
  exact (accumulatorStore_agree _ _ _ _).bind fun _ _ _ => closeLoops_agree _

/-! ### The recursion over nodes -/

variable {next : NodeId}

mutual

/-- Building a node of a pool agrees with itself. -/
theorem build_agree (sound : pool.Sound next) : ∀ {expr : Expr}, pool.expr expr →
    Binds pool (build expr) (build expr)
  | .constant id dtype value, member => by
      rw [build]
      exact onceValue_agree member _ (createValue_agree _ _ _ _ _ _ _ _)
  | .loopVar id name, member | .axis id name _ _, member => by
      rw [build]
      exact onceValue_agree member _ (.throw _)
  | .unary id dtype kind operand, member => by
      rw [build]
      refine onceValue_agree member _ (operand_agree ?_ fun _ _ =>
        createValue_agree _ _ _ _ _ _ _ _)
      exact build_agree sound (sound.operands member _ (by simp [Expr.operands]))
  | .binary id dtype kind lhs rhs, member => by
      rw [build]
      refine onceValue_agree member _ (operand_agree ?_ fun _ _ => operand_agree ?_ fun _ _ =>
        emitBinary_agree _ _ _ _ _ _)
      · exact build_agree sound (sound.operands member _ (by simp [Expr.operands]))
      · exact build_agree sound (sound.operands member _ (by simp [Expr.operands]))
  | .compare id kind lhs rhs, member => by
      rw [build]
      refine onceValue_agree member _ ((Agree.valueType lhs).bind ?_)
      rintro dtype - rfl
      refine operand_agree ?_ fun _ _ => operand_agree ?_ fun _ _ =>
        createValue_agree _ _ _ _ _ _ _ _
      · exact build_agree sound (sound.operands member _ (by simp [Expr.operands]))
      · exact build_agree sound (sound.operands member _ (by simp [Expr.operands]))
  | .cast id dtype source, member => by
      rw [build]
      refine onceValue_agree member _ ((Agree.valueType source).bind ?_)
      rintro sourceType - rfl
      refine operand_agree ?_ fun _ _ => emitCast_agree _ _ _ _
      exact build_agree sound (sound.operands member _ (by simp [Expr.operands]))
  | .load id tensor indices, member => by
      rw [build]
      have members : ∀ index ∈ indices, pool.expr index := sound.operands member
      exact onceValue_agree member _ (emitLoad_agree (fun _ _ read =>
        Extraction.access_stands sound.operands members read) tensor)
  | .store id tensor value indices, member => by
      rw [build]
      have members : ∀ index ∈ indices, pool.expr index := fun index listed =>
        sound.operands member index (List.mem_cons_of_mem _ listed)
      refine once_agree member _ (operand_agree ?_ fun _ _ => ?_)
      · exact build_agree sound (sound.operands member _ (by simp [Expr.operands]))
      · exact (emitStore_agree (fun _ _ read =>
          Extraction.access_stands sound.operands members read) _ _ tensor).bind
          fun _ _ _ => .pure rfl
  | .select id dtype condition thenValue elseValue, member => by
      rw [build]
      refine onceValue_agree member _ (operand_agree ?_ fun _ _ => operand_agree ?_ fun _ _ =>
        operand_agree ?_ fun _ _ => createValue_agree _ _ _ _ _ _ _ _)
      · exact build_agree sound (sound.operands member _ (by simp [Expr.operands]))
      · exact build_agree sound (sound.operands member _ (by simp [Expr.operands]))
      · exact build_agree sound (sound.operands member _ (by simp [Expr.operands]))
  | .call id dtype callee args, member => by
      rw [build]
      exact once_agree member _ ((buildArgs_agree sound (sound.operands member)).bind
        fun _ _ _ => emitCall_agree _ _ _ _)
  | .getBit id value bit, member => by
      rw [build]
      refine onceValue_agree member _ (operand_agree ?_ fun _ _ => operand_agree ?_ fun _ _ =>
        createValue_agree _ _ _ _ _ _ _ _)
      · exact build_agree sound (sound.operands member _ (by simp [Expr.operands]))
      · exact build_agree sound (sound.operands member _ (by simp [Expr.operands]))
  | .reduce id dtype kind body axes, member => by
      rw [build_reduce]
      refine onceValue_agree member _ ((Agree.emit _ _).bind fun _ _ _ => ?_)
      refine (openAccumulator_agree kind dtype).bind fun acc other _ => ?_
      have built := build_agree sound (sound.operands member body (by simp [Expr.operands]))
      have members : ∀ axis ∈ axes, pool.expr axis := fun axis listed =>
        sound.operands member axis (List.mem_cons_of_mem _ listed)
      have nest := reduceNest_agree acc other kind dtype built members
        (axes_agree sound axes members)
      exact (Agree.inRegion nest).bind fun _ _ _ => createValue_agree _ _ _ _ _ _ _ _

theorem buildBound_agree (sound : pool.Sound next) : ∀ {bound : Bound},
    (∀ expr ∈ bound.exprs, pool.expr expr) → Concur pool (buildBound bound) (buildBound bound)
  | .const value, _ => by
      rw [buildBound]
      exact .pure trivial
  | .expr value, members => by
      rw [buildBound]
      refine (Agree.valueType value).bind ?_
      rintro dtype - rfl
      dsimp only
      split
      · exact .throw _
      refine operand_agree (build_agree sound (members value (by simp [Bound.exprs]))) fun _ _ => ?_
      exact (emitCast_agree _ _ _ _).bind fun _ _ _ => .pure trivial

theorem axes_agree (sound : pool.Sound next) : ∀ axes : List Expr,
    (∀ axis ∈ axes, pool.expr axis) → ∀ axis ∈ axes, AxisAgrees pool axis
  | [], _ => by simp
  | .axis id name lower upper :: rest, members => by
      intro axis listed
      have bounds := (sound.accepts (members _ List.mem_cons_self)).bounds
      rcases List.mem_cons.mp listed with rfl | later
      · exact ⟨buildBound_agree sound fun expr inside =>
            bounds expr (List.mem_append_left _ inside),
          buildBound_agree sound fun expr inside => bounds expr (List.mem_append_right _ inside)⟩
      · exact axes_agree sound rest (fun other inside =>
          members other (List.mem_cons_of_mem _ inside)) axis later
  | .constant .. :: rest, members | .loopVar .. :: rest, members | .unary .. :: rest, members
  | .binary .. :: rest, members | .compare .. :: rest, members | .cast .. :: rest, members
  | .load .. :: rest, members | .store .. :: rest, members | .select .. :: rest, members
  | .call .. :: rest, members | .getBit .. :: rest, members | .reduce .. :: rest, members => by
      intro axis listed
      rcases List.mem_cons.mp listed with rfl | later
      · trivial
      · exact axes_agree sound rest (fun other inside =>
          members other (List.mem_cons_of_mem _ inside)) axis later

theorem buildArgs_agree (sound : pool.Sound next) : ∀ {args : List CallArg},
    (∀ expr ∈ CallArg.exprs args, pool.expr expr) → Concur pool (buildArgs args) (buildArgs args)
  | [], _ => by
      rw [buildArgs]
      exact .pure trivial
  | .expr value :: rest, members => by
      rw [buildArgs]
      have built := build_agree sound (members value (by simp [CallArg.exprs]))
      have others : Concur pool (buildArgs rest) (buildArgs rest) :=
        buildArgs_agree sound fun expr listed => members expr (by simp [CallArg.exprs, listed])
      exact operand_agree built fun _ _ => others.bind fun _ _ _ => .pure trivial
  | .tensor tensor :: rest, members => by
      rw [buildArgs]
      have others : Concur pool (buildArgs rest) (buildArgs rest) := buildArgs_agree sound members
      exact (storageOf_agree tensor).bind fun _ _ _ => others.bind fun _ _ _ => .pure trivial

end

end BuildM

end AffineKernel
