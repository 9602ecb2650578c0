import AffineKernel.Proofs.Affine.Slots
import AffineKernel.Proofs.Build.Nodes
import AffineKernel.Proofs.Build.Sharing

/-!
# Ready nodes

A constructor builds its node at once if it is ready (`Context.isReady`). The check
goes down from the node and stops at nodes that are bound, as if nothing below
them were needed any more. A load and a store ask for more: they read their
indices anew, and need the values of the loop variables below an index that is
bound. So the check is right only where the nodes below a bound node are bound as
well, and loop variables to values (`Context.Supplies`). Building keeps this.

Building a ready node then never fails prematurely (`BuildM.build_proceeds`): it
needs no variable, no storage and no nest that are not there. It leaves the storage
of tensors alone, so that what is built next is ready still.
-/

set_option autoImplicit false

namespace AffineKernel

variable {pool : Pool} {fresh : NodeId} {before middle after context : Context}

namespace Extraction

/-- The variables that an access collects occur in its indices. -/
theorem access_occurs {exprs : List Expr} {map : AffineMap} {refs : List LoopRef}
    (read : access exprs [] = .ok map refs) :
    ∀ ref ∈ refs, ∃ expr ∈ exprs, ref ∈ expr.loopRefs := by
  obtain ⟨_, start, begun, rest⟩ := EStateM.bind_eq_ok read
  cases begun
  obtain ⟨forms, found, indices, made⟩ := EStateM.bind_eq_ok rest
  cases made
  have lists : Lists (exprs.flatMap Expr.loopRefs) refs := (readsAll_of_indices indices).lists .nil
  intro ref listed
  exact List.mem_flatMap.mp (List.mem_of_find?_eq_some (lists.first ref listed))

end Extraction

namespace Context

/-! ## What ready nodes rely on -/

/-- Loop variables that are bound are bound to values. -/
def Counted (pool : Pool) (context : Context) : Prop :=
  ∀ expr, pool.expr expr → expr.loopName?.isSome = true → ∀ binding,
    context.binding? expr.id = some binding → ∃ value, binding = .value value

theorem Counted.runs {made : List (Expr × List OpId)} (counted : before.Counted pool)
    (sound : pool.Sound fresh) (runs : Runs before made after)
    (members : ∀ entry ∈ made, pool.expr entry.1) : after.Counted pool := by
  induction runs with
  | refl => exact counted
  | quiet _ adds ih =>
      intro expr member named binding found
      exact ih members expr member named binding ((adds.bindings _).symm.trans found)
  | @gain middle after made node ops _ gains ih =>
      rw [List.forall_mem_append, List.forall_mem_singleton] at members
      intro expr member named binding found
      by_cases same : node.id = expr.id
      · -- A loop variable among the nodes has a value of its own.
        obtain rfl := sound.unique members.2 member same
        have plain : node.isReduce = false ∧ node.isStatement = false := by
          cases node <;> simp_all [Expr.loopName?, Expr.isReduce, Expr.isStatement, Expr.dtype?]
        obtain ⟨last, -, bound⟩ := gains.binding?_of_single plain.1
        rw [found, Expr.bindingTo, plain.2] at bound
        exact ⟨_, Option.some.inj bound⟩
      · rw [gains.binding?_of_ne same] at found
        exact ih members.1 expr member named binding found

/-- A context in which ready nodes can be built. -/
structure Supplies (pool : Pool) (context : Context) : Prop where
  unswept : context.Unswept pool
  closed : context.Closed pool
  counted : context.Counted pool

namespace Supplies

theorem emit (supplies : context.Supplies pool) (event : Event) :
    (context.emit event).Supplies pool :=
  ⟨supplies.unswept, supplies.closed, supplies.counted⟩

theorem runs {made : List (Expr × List OpId)} (supplies : before.Supplies pool)
    (sound : pool.Sound fresh) (runs : Runs before made after)
    (members : ∀ entry ∈ made, pool.expr entry.1) : after.Supplies pool :=
  ⟨runs.unswept sound members supplies.unswept, runs.closed sound members supplies.closed,
    supplies.counted.runs sound runs members⟩

end Supplies

/-! ## What is ready stays so -/

/-- No binding is lost, and the storage is the same. -/
structure Lasts (before after : Context) : Prop where
  stays : Stays before after
  storage : after.storage = before.storage

theorem isReady_of_bound {expr : Expr} (bound : context.isBound expr.id = true) :
    context.isReady expr = true := by
  cases expr <;> simp_all [isReady, Expr.id]

namespace Lasts

theorem emit (context : Context) (event : Event) : Lasts context (context.emit event) :=
  ⟨.of_same fun _ => rfl, rfl⟩

theorem hasStorage (lasts : Lasts before after) (tensor : Tensor) :
    after.hasStorage tensor = before.hasStorage tensor := by
  rw [Context.hasStorage, storage?, lasts.storage, Context.hasStorage, storage?]

mutual

/-- A node that is ready is ready later. -/
theorem isReady (lasts : Lasts before after) :
    ∀ expr : Expr, before.isReady expr = true → after.isReady expr = true
  | .constant .., _ => rfl
  | .loopVar .., ready | .axis .., ready | .reduce .., ready => lasts.stays.isBound ready
  | .unary _ _ _ operand, ready | .cast _ _ operand, ready => by
      simp only [Context.isReady, Bool.or_eq_true] at ready ⊢
      exact ready.imp lasts.stays.isBound (lasts.isReady operand)
  | .binary _ _ _ lhs rhs, ready | .compare _ _ lhs rhs, ready | .getBit _ lhs rhs, ready => by
      simp only [Context.isReady, Bool.or_eq_true, Bool.and_eq_true] at ready ⊢
      exact ready.imp lasts.stays.isBound (And.imp (lasts.isReady lhs) (lasts.isReady rhs))
  | .select _ _ condition thenValue elseValue, ready => by
      simp only [Context.isReady, Bool.or_eq_true, Bool.and_eq_true] at ready ⊢
      exact ready.imp lasts.stays.isBound
        (And.imp (And.imp (lasts.isReady condition) (lasts.isReady thenValue))
          (lasts.isReady elseValue))
  | .load _ tensor indices, ready => by
      simp only [Context.isReady, Bool.or_eq_true, Bool.and_eq_true, lasts.hasStorage] at ready ⊢
      exact ready.imp lasts.stays.isBound (And.imp_right (lasts.allReady indices))
  | .store _ tensor value indices, ready => by
      simp only [Context.isReady, Bool.or_eq_true, Bool.and_eq_true, lasts.hasStorage] at ready ⊢
      exact ready.imp lasts.stays.isBound
        (And.imp (And.imp_right (lasts.isReady value)) (lasts.allReady indices))
  | .call _ _ _ args, ready => by
      simp only [Context.isReady, Bool.or_eq_true, Bool.and_eq_true, List.all_eq_true,
        lasts.hasStorage] at ready ⊢
      exact ready.imp lasts.stays.isBound (And.imp_right (lasts.argsReady args))

/-- So are the nodes of a list. -/
theorem allReady (lasts : Lasts before after) :
    ∀ exprs : List Expr, before.allReady exprs = true → after.allReady exprs = true
  | [], _ => rfl
  | expr :: rest, ready => by
      simp only [Context.allReady, Bool.and_eq_true] at ready ⊢
      exact ready.imp (lasts.isReady expr) (lasts.allReady rest)

/-- So are the arguments of a call. -/
theorem argsReady (lasts : Lasts before after) :
    ∀ args : List CallArg, before.argsReady args = true → after.argsReady args = true
  | [], _ => rfl
  | .expr value :: rest, ready => by
      simp only [Context.argsReady, Bool.and_eq_true] at ready ⊢
      exact ready.imp (lasts.isReady value) (lasts.argsReady rest)
  | .tensor _ :: rest, ready => lasts.argsReady rest ready

end

end Lasts

theorem allReady_iff {exprs : List Expr} :
    context.allReady exprs = true ↔ ∀ expr ∈ exprs, context.isReady expr = true := by
  induction exprs with
  | nil => simp [allReady]
  | cons expr rest ih => simp [allReady, ih]

/-- The loop variables of an index that is ready have values. -/
theorem Supplies.loopValue? (supplies : context.Supplies pool) (sound : pool.Sound fresh) :
    ∀ expr : Expr, pool.expr expr → context.isReady expr = true → ∀ ref ∈ expr.loopRefs,
      ∃ value, context.loopValue? ref = some value
  | .loopVar id name, member, ready, ref, listed
  | .axis id name _ _, member, ready, ref, listed => by
      obtain rfl := List.mem_singleton.mp listed
      obtain ⟨binding, found⟩ := Context.isBound_iff.mp ready
      obtain ⟨value, rfl⟩ := supplies.counted _ member rfl binding found
      exact ⟨value, by rw [Context.loopValue?, found]; rfl⟩
  | .cast id dtype source, member, ready, ref, listed => by
      have below := sound.operands member source (by simp [Expr.operands])
      refine supplies.loopValue? sound source below ?_ ref listed
      simp only [isReady, Bool.or_eq_true] at ready
      rcases ready with bound | ready
      · exact isReady_of_bound (supplies.closed _ member bound source
          (by simp [Expr.Uses, Expr.valueOperands, Expr.operands]))
      · exact ready
  | .binary id dtype kind lhs rhs, member, ready, ref, listed => by
      have below := sound.operands member
      have both : context.isReady lhs = true ∧ context.isReady rhs = true := by
        simp only [isReady, Bool.or_eq_true, Bool.and_eq_true] at ready
        rcases ready with bound | ready
        · have uses := supplies.closed _ member bound
          simp only [Expr.Uses, Expr.valueOperands, Expr.operands, List.forall_mem_cons] at uses
          exact ⟨isReady_of_bound uses.1, isReady_of_bound uses.2.1⟩
        · exact ready
      simp only [Expr.operands, List.forall_mem_cons] at below
      rcases List.mem_append.mp listed with left | right
      · exact supplies.loopValue? sound lhs below.1 both.1 ref left
      · exact supplies.loopValue? sound rhs below.2.1 both.2 ref right
  | .constant .., _, _, _, listed | .unary .., _, _, _, listed | .compare .., _, _, _, listed
  | .load .., _, _, _, listed | .store .., _, _, _, listed | .select .., _, _, _, listed
  | .call .., _, _, _, listed | .getBit .., _, _, _, listed | .reduce .., _, _, _, listed => by
      cases listed

end Context

namespace BuildM

open Context

variable {α β : Type}

/-! ## Actions that do not fail prematurely -/

/-- From a context an action leaves the storage alone, or fails with a refusal. -/
def Proceeds (action : BuildM α) (context : Context) : Prop :=
  match action context with
  | .ok _ after => after.storage = context.storage
  | .error error _ => error.isPremature = false

namespace Proceeds

theorem pure (a : α) (context : Context) : Proceeds (Pure.pure a) context := rfl

theorem throw {error : BuildError} (proper : error.isPremature = false) (context : Context) :
    Proceeds (MonadExcept.throw error : BuildM α) context := proper

theorem bind {action : BuildM β} {next : β → BuildM α} (first : Proceeds action context)
    (second : ∀ b middle, action context = .ok b middle → Proceeds (next b) middle) :
    Proceeds (action >>= next) context := by
  simp only [Proceeds, Bind.bind, EStateM.bind] at first ⊢
  cases ran : action context with
  | ok b middle =>
      rw [ran] at first
      have later := second b middle ran
      rw [Proceeds] at later
      dsimp only at first ⊢
      cases last : next b middle with
      | ok a after =>
          rw [last] at later
          exact later.trans first
      | error error after =>
          rw [last] at later
          exact later
  | error error middle =>
      rw [ran] at first
      exact first

/-- A first step with a known outcome. -/
theorem step {action : BuildM β} {next : β → BuildM α} {b : β}
    (ran : action context = .ok b middle) (same : middle.storage = context.storage)
    (later : Proceeds (next b) middle) : Proceeds (action >>= next) context := by
  refine .bind (by rwa [Proceeds, ran]) fun other after again => ?_
  cases ran.symm.trans again
  exact later

theorem map {action : BuildM β} (proceeds : Proceeds action context) (f : β → α) :
    Proceeds (f <$> action) context := by
  simp only [Proceeds, Functor.map, EStateM.map] at proceeds ⊢
  cases ran : action context <;> rw [ran] at proceeds <;> exact proceeds

theorem storage {action : BuildM α} {a : α} (proceeds : Proceeds action context)
    (ran : action context = .ok a after) : after.storage = context.storage := by
  rwa [Proceeds, ran] at proceeds

theorem proper {action : BuildM α} {error : BuildError} (proceeds : Proceeds action context)
    (ran : action context = .error error after) : error.isPremature = false := by
  rwa [Proceeds, ran] at proceeds

end Proceeds

/-- An action that never fails prematurely. -/
abbrev Prompt (action : BuildM α) : Prop := ∀ context, Proceeds action context

theorem Prompt.bind {action : BuildM β} {next : β → BuildM α} (first : Prompt action)
    (second : ∀ b, Prompt (next b)) : Prompt (action >>= next) :=
  fun context => (first context).bind fun b middle _ => second b middle

theorem needValue_prompt (name : String) (binding : Binding) : Prompt (needValue name binding) := by
  cases binding with
  | value value => exact .pure value
  | op id => exact .throw rfl

theorem create_prompt (draft : OpDraft) : Prompt (create draft) := by
  intro context
  have point : Proceeds currentPoint context := by
    rw [Proceeds, currentPoint, EStateM.get_bind_apply]
    cases context.stack <;> rfl
  exact point.bind fun _ _ _ => rfl

theorem createValue_prompt (kind : OpKind) (operands : List Value) (type : ValueType)
    (attributes : List (String × Attribute)) :
    Prompt (createValue kind operands type attributes) :=
  (create_prompt _).bind fun _ => .pure _

theorem emitCast_prompt (value : Value) (source target : DType) :
    Prompt (emitCast value source target) := by
  rw [emitCast]
  split
  · exact .pure value
  · exact createValue_prompt _ _ _ _

theorem emitBinary_prompt (kind : BinaryKind) (dtype : DType) (lhs rhs : Value) :
    Prompt (emitBinary kind dtype lhs rhs) := by
  have lowered : Prompt (liftExcept (kind.lower dtype)) := by
    intro context
    cases passed : kind.lower dtype with
    | ok op => exact .pure op context
    | error error => exact .throw (kind.lower_refuses dtype error passed) context
  refine lowered.bind fun op => (createValue_prompt _ _ _ _).bind fun result => ?_
  split
  · exact createValue_prompt _ _ _ _
  · exact .pure result

theorem emitCall_prompt (dtype : Option DType) (callee : String) (args : List Value) :
    Prompt (emitCall dtype callee args) :=
  (create_prompt _).bind fun _ => .pure _

/-- A tensor with storage has a buffer. -/
theorem storageOf_eq {tensor : Tensor} (stored : context.hasStorage tensor = true) :
    ∃ value, storageOf tensor context = .ok value context := by
  obtain ⟨value, found⟩ := Option.isSome_iff_exists.mp stored
  refine ⟨value, ?_⟩
  rw [storageOf, EStateM.get_bind_apply, found]
  rfl

/-- Loop variables with values. -/
theorem loopValues_proceed {refs : List LoopRef}
    (valued : ∀ ref ∈ refs, ∃ value, context.loopValue? ref = some value) :
    Proceeds (refs.mapM loopValue) context := by
  induction refs with
  | nil => exact .pure [] context
  | cons ref rest ih =>
      rw [List.forall_mem_cons] at valued
      obtain ⟨value, found⟩ := valued.1
      have read : loopValue ref context = .ok value context := by
        rw [loopValue, EStateM.get_bind_apply]
        rw [Context.loopValue?] at found
        rw [found]
        rfl
      rw [List.mapM_cons]
      exact .step read rfl ((ih valued.2).bind fun _ _ _ => .pure _ _)

section Accesses

variable (sound : pool.Sound fresh) (supplies : context.Supplies pool) {tensor : Tensor}
  {indices : List Expr} (members : ∀ index ∈ indices, pool.expr index)
  (ready : context.allReady indices = true)
include sound supplies members ready

/-- An access over ready indices. -/
theorem affineAccess_proceeds : Proceeds (affineAccess indices) context := by
  rw [affineAccess]
  cases read : Extraction.access indices [] with
  | error error refs => exact .throw (Extraction.access_refuses indices _ _ _ read) context
  | ok map refs =>
      refine .step rfl rfl ((loopValues_proceed fun ref listed => ?_).bind fun _ _ _ => .pure _ _)
      obtain ⟨index, inside, occurs⟩ := Extraction.access_occurs read ref listed
      exact (supplies.emit _).loopValue? sound index (members index inside)
        ((Lasts.emit context _).isReady index (allReady_iff.mp ready index inside)) ref occurs

variable (stored : context.hasStorage tensor = true)
include stored

/-- The parts of an access to a tensor with storage. -/
theorem access_proceeds {next : Value → AffineMap × List Value → BuildM α}
    (prompt : ∀ memref access, Prompt (next memref access)) :
    Proceeds (do
      let memref ← storageOf tensor
      let access ← affineAccess indices
      next memref access) context := by
  obtain ⟨memref, read⟩ := storageOf_eq stored
  refine .step read rfl ((affineAccess_proceeds sound supplies members ready).bind ?_)
  exact fun access last _ => prompt memref access last

theorem emitLoad_proceeds : Proceeds (emitLoad tensor indices) context :=
  access_proceeds sound supplies members ready stored fun _ _ => createValue_prompt _ _ _ _

theorem emitStore_proceeds (value : Value) : Proceeds (emitStore value tensor indices) context :=
  access_proceeds sound supplies members ready stored fun _ _ => create_prompt _

end Accesses

/-! ## Building -/

/-- A node that is not bound is built and bound. -/
theorem once_proceeds {root : Expr} (supplies : context.Supplies pool)
    (ready : context.isReady root = true) (name : String) {action : BuildM Binding}
    (acts : ∀ before : Context, before.Supplies pool → before.isBound root.id = false →
      before.isReady root = true → Proceeds action before) :
    Proceeds (once root.id name action) context := by
  cases bound : context.binding? root.id with
  | some binding => rw [Proceeds, once_of_bound bound]
  | none =>
      rw [Proceeds, once, EStateM.get_bind_apply, bound]
      have free : context.isBound root.id = false := by
        rw [isBound, bound]
        rfl
      have acted := acts _ (supplies.emit (.materialize root.id name)) free
        ((Lasts.emit context _).isReady root ready)
      exact Proceeds.step rfl rfl (acted.bind fun _ _ _ => rfl)

theorem onceValue_proceeds {root : Expr} (supplies : context.Supplies pool)
    (ready : context.isReady root = true) (name : String) {action : BuildM Value}
    (acts : ∀ before : Context, before.Supplies pool → before.isBound root.id = false →
      before.isReady root = true → Proceeds action before) :
    Proceeds (onceValue root.id name action) context :=
  once_proceeds supplies ready name fun before supplies free ready =>
    (acts before supplies free ready).map Binding.value

/-- An operand is built, and what was ready is ready still. -/
theorem operand_proceeds {operand : Expr} {next : Value → BuildM α} (sound : pool.Sound fresh)
    (member : pool.expr operand) (supplies : context.Supplies pool)
    (built : ∀ context : Context, context.Supplies pool → context.isReady operand = true →
      Proceeds (build operand) context) (ready : context.isReady operand = true)
    (later : ∀ value after, after.Supplies pool → Lasts context after →
      Proceeds (next value) after) :
    Proceeds (do
      let binding ← build operand
      let value ← needValue operand.name binding
      next value) context := by
  have built := built context supplies ready
  refine built.bind fun binding middle ran => ?_
  obtain ⟨-, made, runs, reached⟩ :=
    (build_runs sound operand member context supplies.unswept).of_ok ran
  have members : ∀ entry ∈ made, pool.expr entry.1 :=
    fun entry listed => sound.reaches member (reached entry listed)
  refine (needValue_prompt _ binding middle).bind fun value after needed => ?_
  have same : after = middle := by
    cases binding <;> cases needed
    rfl
  subst same
  exact later value after (supplies.runs sound runs members) ⟨runs.stays, built.storage ran⟩

mutual

/-- Building a ready node of a pool does not fail prematurely. -/
theorem build_proceeds (sound : pool.Sound fresh) : ∀ expr : Expr, pool.expr expr →
    ∀ context : Context, context.Supplies pool → context.isReady expr = true →
      Proceeds (build expr) context
  | .constant id dtype value, _, context, supplies, ready => by
      rw [build]
      refine onceValue_proceeds supplies ready _ fun before _ _ _ => ?_
      exact createValue_prompt _ _ _ _ before
  | .loopVar .., _, context, _, ready | .axis .., _, context, _, ready
  | .reduce .., _, context, _, ready => by
      obtain ⟨binding, found⟩ := Context.isBound_iff.mp ready
      rw [Proceeds, build_of_bound found]
  | .unary id dtype kind operand, member, context, supplies, ready => by
      have below := sound.operands member operand (by simp [Expr.operands])
      rw [build]
      refine onceValue_proceeds supplies ready _ fun before supplies free ready => ?_
      simp only [isReady, show before.isBound id = false from free, Bool.false_or] at ready
      refine operand_proceeds sound below supplies (build_proceeds sound operand below)
        ready fun x after _ _ => ?_
      exact createValue_prompt _ _ _ _ after
  | .binary id dtype kind lhs rhs, member, context, supplies, ready => by
      have below := sound.operands member
      simp only [Expr.operands, List.forall_mem_cons] at below
      rw [build]
      refine onceValue_proceeds supplies ready _ fun before supplies free ready => ?_
      simp only [isReady, show before.isBound id = false from free, Bool.false_or,
        Bool.and_eq_true] at ready
      refine operand_proceeds sound below.1 supplies (build_proceeds sound lhs below.1)
        ready.1 fun a middle supplies lasts => ?_
      refine operand_proceeds sound below.2.1 supplies (build_proceeds sound rhs below.2.1)
        (lasts.isReady rhs ready.2) fun b after _ _ => ?_
      exact emitBinary_prompt _ _ _ _ after
  | .compare id kind lhs rhs, member, context, supplies, ready => by
      have below := sound.operands member
      simp only [Expr.operands, List.forall_mem_cons] at below
      obtain ⟨dtype, -, typed, -⟩ := sound.formed member
      rw [build]
      refine onceValue_proceeds supplies ready _ fun before supplies free ready => ?_
      simp only [isReady, show before.isBound id = false from free, Bool.false_or,
        Bool.and_eq_true] at ready
      rw [valueType, typed]
      refine operand_proceeds sound below.1 supplies (build_proceeds sound lhs below.1)
        ready.1 fun a middle supplies lasts => ?_
      refine operand_proceeds sound below.2.1 supplies (build_proceeds sound rhs below.2.1)
        (lasts.isReady rhs ready.2) fun b after _ _ => ?_
      exact createValue_prompt _ _ _ _ after
  | .cast id dtype source, member, context, supplies, ready => by
      have below := sound.operands member source (by simp [Expr.operands])
      obtain ⟨sourceType, typed, -⟩ := sound.formed member
      rw [build]
      refine onceValue_proceeds supplies ready _ fun before supplies free ready => ?_
      simp only [isReady, show before.isBound id = false from free, Bool.false_or] at ready
      rw [valueType, typed]
      refine operand_proceeds sound below supplies (build_proceeds sound source below)
        ready fun x after _ _ => ?_
      exact emitCast_prompt _ _ _ after
  | .load id tensor indices, member, context, supplies, ready => by
      have below := sound.operands member
      rw [build]
      refine onceValue_proceeds supplies ready _ fun before supplies free ready => ?_
      simp only [isReady, show before.isBound id = false from free, Bool.false_or,
        Bool.and_eq_true] at ready
      exact emitLoad_proceeds sound supplies below ready.2 ready.1
  | .store id tensor value indices, member, context, supplies, ready => by
      have below := sound.operands member
      simp only [Expr.operands, List.forall_mem_cons] at below
      rw [build]
      refine once_proceeds supplies ready _ fun before supplies free ready => ?_
      simp only [isReady, show before.isBound id = false from free, Bool.false_or,
        Bool.and_eq_true] at ready
      refine operand_proceeds sound below.1 supplies (build_proceeds sound value below.1)
        ready.1.2 fun x middle supplies lasts => ?_
      have stored := (lasts.hasStorage tensor).trans ready.1.1
      exact (emitStore_proceeds sound supplies below.2 (lasts.allReady indices ready.2) stored
        x).bind fun op after _ => .pure _ after
  | .select id dtype condition thenValue elseValue, member, context, supplies, ready => by
      have below := sound.operands member
      simp only [Expr.operands, List.forall_mem_cons] at below
      rw [build]
      refine onceValue_proceeds supplies ready _ fun before supplies free ready => ?_
      simp only [isReady, show before.isBound id = false from free, Bool.false_or,
        Bool.and_eq_true] at ready
      refine operand_proceeds sound below.1 supplies (build_proceeds sound condition below.1)
        ready.1.1 fun c middle supplies lasts => ?_
      refine operand_proceeds sound below.2.1 supplies (build_proceeds sound thenValue below.2.1)
        (lasts.isReady thenValue ready.1.2) fun t last supplies further => ?_
      have third := further.isReady elseValue (lasts.isReady elseValue ready.2)
      refine operand_proceeds sound below.2.2.1 supplies
        (build_proceeds sound elseValue below.2.2.1) third fun e after _ _ => ?_
      exact createValue_prompt _ _ _ _ after
  | .call id dtype callee args, member, context, supplies, ready => by
      rw [build]
      refine once_proceeds supplies ready _ fun before supplies free ready => ?_
      simp only [isReady, show before.isBound id = false from free, Bool.false_or,
        Bool.and_eq_true, List.all_eq_true] at ready
      refine .bind (buildArgs_proceeds sound args (sound.operands member) before supplies ready.1
        ready.2) fun operands after _ => ?_
      exact emitCall_prompt _ _ _ after
  | .getBit id value bit, member, context, supplies, ready => by
      have below := sound.operands member
      simp only [Expr.operands, List.forall_mem_cons] at below
      rw [build]
      refine onceValue_proceeds supplies ready _ fun before supplies free ready => ?_
      simp only [isReady, show before.isBound id = false from free, Bool.false_or,
        Bool.and_eq_true] at ready
      refine operand_proceeds sound below.1 supplies (build_proceeds sound value below.1)
        ready.1 fun v middle supplies lasts => ?_
      refine operand_proceeds sound below.2.1 supplies (build_proceeds sound bit below.2.1)
        (lasts.isReady bit ready.2) fun b after _ _ => ?_
      exact createValue_prompt _ _ _ _ after

/-- Nor does building the arguments of a call. -/
theorem buildArgs_proceeds (sound : pool.Sound fresh) : ∀ args : List CallArg,
    (∀ expr ∈ CallArg.exprs args, pool.expr expr) → ∀ context : Context, context.Supplies pool →
      (∀ tensor ∈ CallArg.tensors args, context.hasStorage tensor = true) →
      context.argsReady args = true → Proceeds (buildArgs args) context
  | [], _, context, _, _, _ => by
      rw [buildArgs]
      exact .pure _ context
  | .expr value :: rest, members, context, supplies, stored, ready => by
      simp only [CallArg.exprs, List.forall_mem_cons] at members
      simp only [argsReady, Bool.and_eq_true] at ready
      rw [buildArgs]
      refine operand_proceeds sound members.1 supplies (build_proceeds sound value members.1)
        ready.1 fun first after supplies lasts => ?_
      have kept : ∀ tensor ∈ CallArg.tensors rest, after.hasStorage tensor = true :=
        fun tensor listed => (lasts.hasStorage tensor).trans (stored tensor listed)
      exact (buildArgs_proceeds sound rest members.2 after supplies kept
        (lasts.argsReady rest ready.2)).bind fun _ last _ => .pure _ last
  | .tensor tensor :: rest, members, context, supplies, stored, ready => by
      simp only [CallArg.tensors, List.forall_mem_cons] at stored
      rw [buildArgs]
      obtain ⟨memref, read⟩ := storageOf_eq stored.1
      have others := buildArgs_proceeds sound rest members context supplies stored.2 ready
      exact .step read rfl (others.bind fun _ last _ => .pure _ last)

end

/-- A new node is built at once only if it is ready. -/
theorem finish_proceeds {node : NodeId → Expr} (sound : pool.Sound fresh)
    (member : pool.expr (node context.nextId))
    (supplies : ({ context with nextId := context.nextId + 1 } : Context).Supplies pool) :
    Proceeds (finish node) context := by
  refine .step rfl rfl (.step rfl rfl ?_)
  dsimp only
  split
  · rename_i eager
    have ready := (Bool.and_eq_true _ _ ▸ eager : _ ∧ _).2
    exact (build_proceeds sound _ member _ supplies ready).bind fun _ after _ => .pure _ after
  · exact .pure _ _

end BuildM

end AffineKernel
