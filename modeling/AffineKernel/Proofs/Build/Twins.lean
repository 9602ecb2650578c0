import AffineKernel.Proofs.Build.Lockstep
import AffineKernel.Proofs.Build.Readiness
import AffineKernel.Proofs.Build.Success
import Mathlib.Data.List.Forall2

/-!
# Twins

Where two contexts tally, the same constructor makes a node in both. The two nodes
are the same but for identities that were free before (`Expr.Renews`), and they are
*alike* in the contexts (`Context.Alike`): either both are built, or neither is and
their operands are alike. So both are ready or neither is (`Alike.isReady_eq`), and
building them has the same outcome (`Alike.builds`). Hence constructing a node of
twins makes twins again, in both modes (`BuildM.finish_alike`).

A constant can be constructed wherever there is room for it (`Context.Roomy`), and
nothing changes by it for what was there (`Context.Renewed`).
-/

set_option autoImplicit false

namespace AffineKernel

/-! ## What indices become -/

/-- The node of an index: an expression, or a new constant for a literal. -/
inductive IndexArg.Becomes (next : NodeId) : IndexArg → Expr → Prop where
  | expr (value : Expr) : Becomes next (.expr value) value
  | const (value : Int64) {id : NodeId} (new : next ≤ id) :
      Becomes next (.const value) (.constant id .index (.int value))

theorem IndexArg.Becomes.mono {next later : NodeId} {arg : IndexArg} {expr : Expr}
    (becomes : arg.Becomes later expr) (le : next ≤ later) : arg.Becomes next expr := by
  cases becomes with
  | expr => exact .expr _
  | const _ new => exact .const _ (Nat.le_trans le new)

/-! ## New nodes -/

namespace Context

/-- No node is bound that was not constructed yet. -/
def Unborn (context : Context) : Prop :=
  ∀ id, context.nextId ≤ id → context.binding? id = none

/-- Nothing changes for nodes that were constructed. -/
structure Extended (before after : Context) : Prop where
  kept : ∀ id, id < before.nextId → after.binding? id = before.binding? id
  nextId_le : before.nextId ≤ after.nextId

/-- Nothing has changed for the nodes and tensors that were there: only new nodes were bound. -/
structure Renewed (before after : Context) : Prop extends Extended before after where
  mode : after.mode = before.mode
  stack : after.stack = before.stack
  regions : after.regions = before.regions
  storage : after.storage = before.storage
  unborn : before.Unborn → after.Unborn

/-- A node was constructed and is not built yet. -/
structure Pending (next : NodeId) (context : Context) (id : NodeId) : Prop where
  new : next ≤ id
  old : id < context.nextId
  unbound : context.binding? id = none

/-- A node was built, and became a value. -/
structure Held (context : Context) (id : NodeId) : Prop where
  old : id < context.nextId
  bound : ∃ value, context.binding? id = some (.value value)

/-- Constants can be made: in the in-place mode this needs an insertion point. -/
def Roomy (context : Context) : Prop := context.mode.isInPlace = true → context.stack ≠ []

variable {before middle after context : Context} {pool : Pool} {next : NodeId}

theorem Pending.mono {id : NodeId} (pending : before.Pending next id)
    (extended : before.Extended after) : after.Pending next id where
  new := pending.new
  old := Nat.lt_of_lt_of_le pending.old extended.nextId_le
  unbound := (extended.kept id pending.old).trans pending.unbound

theorem Held.mono {id : NodeId} (held : before.Held id) (extended : before.Extended after) :
    after.Held id where
  old := Nat.lt_of_lt_of_le held.old extended.nextId_le
  bound := (extended.kept id held.old).symm ▸ held.bound

namespace Renewed

theorem refl (context : Context) : Renewed context context :=
  ⟨⟨fun _ _ => rfl, Nat.le_refl _⟩, rfl, rfl, rfl, rfl, fun unborn => unborn⟩

theorem trans (first : Renewed before middle) (second : Renewed middle after) :
    Renewed before after where
  mode := second.mode.trans first.mode
  stack := second.stack.trans first.stack
  regions := second.regions.trans first.regions
  storage := second.storage.trans first.storage
  kept id old := (second.kept id (Nat.lt_of_lt_of_le old first.nextId_le)).trans (first.kept id old)
  nextId_le := Nat.le_trans first.nextId_le second.nextId_le
  unborn unborn := second.unborn (first.unborn unborn)

theorem roomy (renewed : Renewed before after) (roomy : before.Roomy) : after.Roomy := by
  rw [Roomy, renewed.mode, renewed.stack]
  exact roomy

/-- The nodes of a pool do not see the difference. -/
theorem tally (renewed : Renewed before after) (sound : pool.Sound before.nextId) :
    after.Tally pool before where
  mode := renewed.mode
  depth := congrArg List.length renewed.stack
  regions := renewed.regions
  stored tensor := by rw [hasStorage, storage?, renewed.storage, hasStorage, storage?]
  bound member := by rw [renewed.kept _ (sound.below member)]

end Renewed

end Context

namespace BuildM

open Context

variable {context : Context}

/-- A new constant, which is built at once in the in-place mode. -/
theorem constant_renews {dtype : DType} (valid : ∃ rank, dtype.rank = .ok rank) (value : Literal)
    (roomy : context.Roomy) (unborn : context.Unborn) :
    Succeeds (constant value dtype) context fun expr after =>
      expr = .constant context.nextId dtype value ∧ context.Renewed after ∧
        (context.mode.isInPlace = true → after.Held context.nextId) ∧
        (context.mode.isInPlace = false → after.Pending context.nextId context.nextId) := by
  obtain ⟨rank, ranked⟩ := valid
  have fresh := unborn context.nextId (Nat.le_refl _)
  rw [constant, checkType, ranked, Succeeds, pure_bind, finish, ensures_bind, ensures_freshId,
    ensures_bind, ensures_get]
  split
  · rename_i ready
    have inPlace : context.mode.isInPlace = true := (Bool.and_eq_true _ _ ▸ ready).1
    have free : ({ context with nextId := context.nextId + 1 } : Context).binding? context.nextId =
        none := fresh
    rw [ensures_bind, build, onceValue, once, ensures_bind, ensures_get, free]
    simp only [ensures_bind, ensures_emit, ensures_map, ensures_bindNode, ensures_pure,
      emitConstant, createValue]
    refine ensures_create (fun point rest placed => ?_) fun empty => roomy inPlace empty
    refine ⟨trivial, ⟨⟨fun id old => ?_, Nat.le_succ _⟩, rfl, rfl, rfl, rfl, fun _ id later => ?_⟩,
      fun _ => ⟨Nat.lt_succ_self _, _, by rw [binding?_bind, if_pos rfl]⟩,
      fun deferred => absurd (deferred.symm.trans inPlace) Bool.false_ne_true⟩
    · rw [binding?_bind, if_neg (Nat.ne_of_gt old)]
      rfl
    · have other : context.nextId < id := later
      rw [binding?_bind, if_neg (Nat.ne_of_lt other)]
      exact unborn id (Nat.le_of_lt other)
  · rename_i unready
    have deferred : context.mode.isInPlace = false := by
      simpa [isReady] using unready
    refine ⟨rfl, ⟨⟨fun _ _ => rfl, Nat.le_succ _⟩, rfl, rfl, rfl, rfl, fun _ id later => ?_⟩,
      fun inPlace => absurd (deferred.symm.trans inPlace) Bool.false_ne_true,
      fun _ => ⟨Nat.le_refl _, Nat.lt_succ_self _, fresh⟩⟩
    exact unborn id (Nat.le_of_succ_le later)

/-- What indices become: a new constant for each literal. -/
theorem indices_become (args : List IndexArg) {next : NodeId} (le : next ≤ context.nextId) :
    Ensures (args.mapM indexExpr) context
      (fun indices _ => List.Forall₂ (IndexArg.Becomes next) args indices) fun _ => True := by
  induction args generalizing context with
  | nil => exact .nil
  | cons arg rest ih =>
      rw [List.mapM_cons, ensures_bind]
      have made : Ensures (indexExpr arg) context
          (fun index after => arg.Becomes next index ∧ next ≤ after.nextId) fun _ => True := by
        cases arg with
        | expr value => exact ⟨.expr value, le⟩
        | const value =>
            change Ensures (finish fun id => .constant id .index (.int value)) context _ _
            rw [finish, ensures_bind, ensures_freshId, ensures_bind, ensures_get]
            split
            · rw [ensures_bind]
              refine (build_emits _ _).mono (fun _ after emits => ?_) fun _ _ => trivial
              exact ⟨.const value le, Nat.le_trans le (Nat.le_of_succ_le emits.nextId_le)⟩
            · exact ⟨.const value le, Nat.le_succ_of_le le⟩
      refine made.mono ?_ fun _ _ => trivial
      rintro index middle ⟨becomes, later⟩
      rw [ensures_bind]
      exact (ih later).mono (fun _ _ others => .cons becomes others) fun _ _ => trivial

/-- The nodes of indices can be made, and nothing changes for what was there. -/
theorem indices_renew (args : List IndexArg) (roomy : context.Roomy) (unborn : context.Unborn) :
    Succeeds (args.mapM indexExpr) context fun indices after =>
      List.Forall₂ (IndexArg.Becomes context.nextId) args indices ∧ context.Renewed after := by
  have renews : Succeeds (args.mapM indexExpr) context fun _ after => context.Renewed after := by
    induction args generalizing context with
    | nil => exact .refl context
    | cons arg rest ih =>
        have made : Succeeds (indexExpr arg) context fun _ after => context.Renewed after := by
          cases arg with
          | expr value => exact .refl context
          | const value =>
              exact (constant_renews ⟨_, rfl⟩ (.int value) roomy unborn).mono
                (fun _ _ made => made.2.1) fun _ impossible => impossible
        rw [List.mapM_cons, Succeeds, ensures_bind]
        refine made.mono (fun index middle renewed => ?_) fun _ impossible => impossible
        rw [ensures_bind]
        exact (ih (renewed.roomy roomy) (renewed.unborn unborn)).mono
          (fun _ _ further => renewed.trans further) fun _ impossible => impossible
  exact ((indices_become args (Nat.le_refl _)).and renews).mono (fun _ _ both => both)
    fun _ impossible => impossible.2

end BuildM

/-! ## Nodes that are the same -/

/-- Two nodes are the same, but for identities that were free. -/
inductive Expr.Renews (next : NodeId) : Expr → Expr → Prop where
  | same (expr : Expr) : Renews next expr expr
  | constant {id other : NodeId} (dtype : DType) (value : Literal) (new : next ≤ id)
      (newOther : next ≤ other) :
      Renews next (.constant id dtype value) (.constant other dtype value)
  | cast {id other : NodeId} (dtype : DType) {source otherSource : Expr} (new : next ≤ id)
      (newOther : next ≤ other) (inner : Renews next source otherSource) :
      Renews next (.cast id dtype source) (.cast other dtype otherSource)
  | store {id other : NodeId} (tensor : Tensor) {value otherValue : Expr}
      {indices others : List Expr} (new : next ≤ id) (newOther : next ≤ other)
      (stored : Renews next value otherValue)
      (listed : List.Forall₂ (Renews next) indices others) :
      Renews next (.store id tensor value indices) (.store other tensor otherValue others)

namespace Expr.Renews

variable {next : NodeId} {expr other : Expr}

theorem dtype? (renews : expr.Renews next other) : expr.dtype? = other.dtype? := by
  cases renews <;> rfl

theorem name (renews : expr.Renews next other) : expr.name = other.name := by
  cases renews <;> rfl

end Expr.Renews

namespace IndexArg

variable {next : NodeId} {arg : IndexArg} {args : List IndexArg} {expr other : Expr}
  {exprs others : List Expr}

theorem Becomes.renews (left : arg.Becomes next expr) (right : arg.Becomes next other) :
    expr.Renews next other := by
  cases left with
  | expr => cases right; exact .same _
  | const value new => cases right with | const _ newOther => exact .constant _ _ new newOther

theorem renews_of_becomes (left : List.Forall₂ (Becomes next) args exprs)
    (right : List.Forall₂ (Becomes next) args others) :
    List.Forall₂ (Expr.Renews next) exprs others := by
  induction left generalizing others with
  | nil => cases right; exact .nil
  | cons first _ ih =>
      cases right with
      | cons second rest => exact .cons (first.renews second) (ih rest)

/-- An index is read the same, whichever constant it has become. -/
theorem Becomes.index_eq (left : arg.Becomes next expr) (right : arg.Becomes next other) :
    Extraction.index expr = Extraction.index other := by
  cases left with
  | expr => cases right; rfl
  | const value => cases right; rfl

theorem access_eq (left : List.Forall₂ (Becomes next) args exprs)
    (right : List.Forall₂ (Becomes next) args others) :
    Extraction.access exprs = Extraction.access others := by
  have reads : exprs.mapM Extraction.index = others.mapM Extraction.index := by
    induction left generalizing others with
    | nil => cases right; rfl
    | cons first _ ih =>
        cases right with
        | cons second rest => rw [List.mapM_cons, List.mapM_cons, first.index_eq second, ih rest]
  rw [Extraction.access, Extraction.access, reads]

end IndexArg

/-! ## Contexts in step -/

namespace Context

variable {pool : Pool} {next : NodeId}
  {first second firstAfter secondAfter firstLast secondLast : Context}

/-- Two contexts that tally, in which nothing is bound that was not constructed yet. Identities from
`next` on belong to neither. -/
structure Paired (pool : Pool) (next : NodeId) (first second : Context) : Prop where
  tally : first.Tally pool second
  left : first.Unborn
  right : second.Unborn
  leftLe : next ≤ first.nextId
  rightLe : next ≤ second.nextId

/-- Two contexts have come to tally by steps that constructed nothing, and bound nothing that was
still to be constructed. -/
structure Abreast (pool : Pool) (first second firstAfter secondAfter : Context) : Prop where
  tally : firstAfter.Tally pool secondAfter
  leftId : firstAfter.nextId = first.nextId
  rightId : secondAfter.nextId = second.nextId
  left : ∀ id, first.nextId ≤ id → firstAfter.binding? id = first.binding? id
  right : ∀ id, second.nextId ≤ id → secondAfter.binding? id = second.binding? id

theorem Tally.abreast (tally : first.Tally pool second) : Abreast pool first second first second :=
  ⟨tally, rfl, rfl, fun _ _ => rfl, fun _ _ => rfl⟩

theorem Together.abreast (together : Together pool first second firstAfter secondAfter)
    (sound : pool.Sound next) (paired : Paired pool next first second) :
    Abreast pool first second firstAfter secondAfter where
  tally := together.tally
  leftId := together.leftId
  rightId := together.rightId
  left id later := together.left id fun _ member =>
    Nat.ne_of_lt (Nat.lt_of_lt_of_le (sound.below member) (Nat.le_trans paired.leftLe later))
  right id later := together.right id fun _ member =>
    Nat.ne_of_lt (Nat.lt_of_lt_of_le (sound.below member) (Nat.le_trans paired.rightLe later))

theorem Abreast.trans (before : Abreast pool first second firstAfter secondAfter)
    (later : Abreast pool firstAfter secondAfter firstLast secondLast) :
    Abreast pool first second firstLast secondLast where
  tally := later.tally
  leftId := later.leftId.trans before.leftId
  rightId := later.rightId.trans before.rightId
  left id new := (later.left id (before.leftId ▸ new)).trans (before.left id new)
  right id new := (later.right id (before.rightId ▸ new)).trans (before.right id new)

/-- Binding a node of its own on each side. -/
theorem Abreast.bind (abreast : Abreast pool first second firstAfter secondAfter)
    (sound : pool.Sound next) {id other : NodeId} (new : next ≤ id) (newOther : next ≤ other)
    (old : id < first.nextId) (oldOther : other < second.nextId) (binding otherBinding : Binding) :
    Abreast pool first second (firstAfter.bind id binding)
      (secondAfter.bind other otherBinding) where
  tally :=
    { abreast.tally with
      bound := by
        intro expr member
        have below := sound.below member
        rw [binding?_bind, if_neg (Nat.ne_of_gt (Nat.lt_of_lt_of_le below new)), binding?_bind,
          if_neg (Nat.ne_of_gt (Nat.lt_of_lt_of_le below newOther))]
        exact abreast.tally.bound member }
  leftId := abreast.leftId
  rightId := abreast.rightId
  left later le := by
    rw [binding?_bind, if_neg (Nat.ne_of_lt (Nat.lt_of_lt_of_le old le))]
    exact abreast.left later le
  right later le := by
    rw [binding?_bind, if_neg (Nat.ne_of_lt (Nat.lt_of_lt_of_le oldOther le))]
    exact abreast.right later le

namespace Paired

theorem abreast (paired : Paired pool next first second)
    (abreast : Abreast pool first second firstAfter secondAfter) :
    Paired pool next firstAfter secondAfter where
  tally := abreast.tally
  left id later :=
    have later := abreast.leftId ▸ later
    (abreast.left id later).trans (paired.left id later)
  right id later :=
    have later := abreast.rightId ▸ later
    (abreast.right id later).trans (paired.right id later)
  leftLe := abreast.leftId ▸ paired.leftLe
  rightLe := abreast.rightId ▸ paired.rightLe

theorem renewed (paired : Paired pool next first second) (sound : pool.Sound next)
    (left : first.Renewed firstAfter) (right : second.Renewed secondAfter) :
    Paired pool next firstAfter secondAfter where
  tally := (left.tally (sound.mono paired.leftLe)).trans
    (paired.tally.trans (right.tally (sound.mono paired.rightLe)).symm)
  left := left.unborn paired.left
  right := right.unborn paired.right
  leftLe := Nat.le_trans paired.leftLe left.nextId_le
  rightLe := Nat.le_trans paired.rightLe right.nextId_le

end Paired

end Context

namespace BuildM

open Context

variable {α α' β β' : Type} {pool : Pool} {next : NodeId} {first second : Context}

/-- From two contexts, two actions have the same outcome and construct nothing. -/
abbrev March (pool : Pool) (first second : Context) (related : α → β → Prop) (left : BuildM α)
    (right : BuildM β) : Prop :=
  SameOutcome (fun a firstAfter b secondAfter =>
    related a b ∧ Abreast pool first second firstAfter secondAfter) (left first) (right second)

theorem Agree.march {related : α → β → Prop} {left : BuildM α} {right : BuildM β}
    (agree : Agree pool related left right) (sound : pool.Sound next)
    (paired : Paired pool next first second) : March pool first second related left right :=
  (agree first second paired.tally).mono fun _ _ _ _ holds =>
    ⟨holds.1, holds.2.abreast sound paired⟩

theorem March.bind {related : α → β → Prop} {other : α' → β' → Prop} {left : BuildM α}
    {right : BuildM β} {leftNext : α → BuildM α'} {rightNext : β → BuildM β'}
    (march : March pool first second related left right) (paired : Paired pool next first second)
    (later : ∀ a firstAfter b secondAfter, related a b → Paired pool next firstAfter secondAfter →
      March pool firstAfter secondAfter other (leftNext a) (rightNext b)) :
    March pool first second other (left >>= leftNext) (right >>= rightNext) :=
  SameOutcome.bind march fun a firstAfter b secondAfter holds =>
    (later a firstAfter b secondAfter holds.1 (paired.abreast holds.2)).mono
      fun _ _ _ _ further => ⟨further.1, holds.2.trans further.2⟩

end BuildM

/-! ## Nodes that are alike -/

namespace Context

/-- Nodes that were constructed alike in two contexts. -/
inductive Alike (pool : Pool) (next : NodeId) (first second : Context) : Expr → Expr → Prop where
  | node {expr : Expr} (member : pool.expr expr) : Alike pool next first second expr expr
  | held {expr other : Expr} (left : first.Held expr.id) (right : second.Held other.id) :
      Alike pool next first second expr other
  | constant {id other : NodeId} (dtype : DType) (value : Literal) (left : first.Pending next id)
      (right : second.Pending next other) :
      Alike pool next first second (.constant id dtype value) (.constant other dtype value)
  | cast {id other : NodeId} (dtype : DType) {source otherSource : Expr}
      (left : first.Pending next id) (right : second.Pending next other)
      (renews : source.Renews next otherSource)
      (inner : Alike pool next first second source otherSource) :
      Alike pool next first second (.cast id dtype source) (.cast other dtype otherSource)
  | store {id other : NodeId} (tensor : Tensor) {value otherValue : Expr} {args : List IndexArg}
      {indices others : List Expr} (left : first.Pending next id)
      (right : second.Pending next other) (renews : value.Renews next otherValue)
      (inner : Alike pool next first second value otherValue)
      (members : ∀ arg ∈ args, pool.index arg)
      (listed : List.Forall₂ (IndexArg.Becomes next) args indices)
      (otherListed : List.Forall₂ (IndexArg.Becomes next) args others) :
      Alike pool next first second (.store id tensor value indices)
        (.store other tensor otherValue others)

variable {pool : Pool} {next : NodeId} {context after : Context}
  {first second firstAfter secondAfter : Context} {expr other : Expr}

namespace Alike

theorem mono (alike : Alike pool next first second expr other) (left : first.Extended firstAfter)
    (right : second.Extended secondAfter) : Alike pool next firstAfter secondAfter expr other := by
  induction alike with
  | node member => exact .node member
  | held firstHeld secondHeld => exact .held (firstHeld.mono left) (secondHeld.mono right)
  | constant dtype value firstPending secondPending =>
      exact .constant dtype value (firstPending.mono left) (secondPending.mono right)
  | cast dtype firstPending secondPending renews _ ih =>
      exact .cast dtype (firstPending.mono left) (secondPending.mono right) renews ih
  | store tensor firstPending secondPending renews _ members listed otherListed ih =>
      exact .store tensor (firstPending.mono left) (secondPending.mono right) renews ih members
        listed otherListed

end Alike

/-- Events do not matter. -/
theorem Alike.emit (alike : Alike pool next first second expr other) (event otherEvent : Event) :
    Alike pool next (first.emit event) (second.emit otherEvent) expr other :=
  alike.mono ⟨fun _ _ => rfl, Nat.le_refl _⟩ ⟨fun _ _ => rfl, Nat.le_refl _⟩

theorem Paired.emit (paired : Paired pool next first second) (event otherEvent : Event) :
    Paired pool next (first.emit event) (second.emit otherEvent) :=
  { paired with tally := { paired.tally with } }

/-! ### Readiness -/

theorem Held.isReady (held : context.Held expr.id) : context.isReady expr = true := by
  obtain ⟨value, bound⟩ := held.bound
  exact isReady_of_bound (by rw [isBound, bound]; rfl)

theorem Pending.isBound {id : NodeId} (pending : context.Pending next id) :
    context.isBound id = false := by
  rw [Context.isBound, pending.unbound]
  rfl

theorem isReady_of_becomes (sound : pool.Sound next) (tally : first.Tally pool second)
    {arg : IndexArg} (member : pool.index arg) (left : arg.Becomes next expr)
    (right : arg.Becomes next other) : first.isReady expr = second.isReady other := by
  cases left with
  | expr => cases right; exact isReady_eq sound tally _ member
  | const value => cases right; rfl

theorem allReady_of_becomes (sound : pool.Sound next) (tally : first.Tally pool second)
    {args : List IndexArg} {indices others : List Expr} (members : ∀ arg ∈ args, pool.index arg)
    (left : List.Forall₂ (IndexArg.Becomes next) args indices)
    (right : List.Forall₂ (IndexArg.Becomes next) args others) :
    first.allReady indices = second.allReady others := by
  induction left generalizing others with
  | nil => cases right; rfl
  | cons head _ ih =>
      cases right with
      | cons otherHead rest =>
          rw [allReady, allReady,
            isReady_of_becomes sound tally (members _ List.mem_cons_self) head otherHead,
            ih (fun arg later => members arg (List.mem_cons_of_mem _ later)) rest]

/-- Of nodes that are alike, both are ready or neither is. -/
theorem Alike.isReady_eq (alike : Alike pool next first second expr other)
    (sound : pool.Sound next) (tally : first.Tally pool second) :
    first.isReady expr = second.isReady other := by
  induction alike with
  | node member => exact Context.isReady_eq sound tally _ member
  | held left right => rw [left.isReady, right.isReady]
  | constant => rfl
  | cast dtype left right _ _ ih => rw [isReady, isReady, left.isBound, right.isBound, ih]
  | store tensor left right _ _ members listed otherListed ih =>
      rw [isReady, isReady, left.isBound, right.isBound, ih, tally.stored,
        allReady_of_becomes sound tally members listed otherListed]

end Context

namespace BuildM

open Context

variable {pool : Pool} {next : NodeId} {first second : Context} {expr other : Expr}

/-! ### Building -/

/-- Building, for the first time, a node of its own on each side. -/
theorem once_march (sound : pool.Sound next) {id other : NodeId} {name : String}
    {left right : BuildM Binding} (pending : first.Pending next id)
    (otherPending : second.Pending next other)
    (steps : March pool (first.emit (.materialize id name)) (second.emit (.materialize other name))
      (fun binding other => binding.isValue = other.isValue) left right) :
    March pool first second (fun binding other => binding.isValue = other.isValue)
      (once id name left) (once other name right) := by
  have leftOnce : once id name left first =
      (do let binding ← left; bindNode id binding; return binding : BuildM Binding)
        (first.emit (.materialize id name)) := by
    simp only [once, EStateM.get_bind_apply, pending.unbound]
    rfl
  have rightOnce : once other name right second =
      (do let binding ← right; bindNode other binding; return binding : BuildM Binding)
        (second.emit (.materialize other name)) := by
    simp only [once, EStateM.get_bind_apply, otherPending.unbound]
    rfl
  rw [March, leftOnce, rightOnce]
  refine SameOutcome.bind steps ?_
  rintro binding firstAfter otherBinding secondAfter ⟨same, abreast⟩
  have reached : Abreast pool first second firstAfter secondAfter := { abreast with }
  exact .ok ⟨same, reached.bind sound pending.new otherPending.new pending.old otherPending.old
    binding otherBinding⟩

theorem onceValue_march (sound : pool.Sound next) {id other : NodeId} {name : String}
    {left right : BuildM Value} (pending : first.Pending next id)
    (otherPending : second.Pending next other)
    (steps : March pool (first.emit (.materialize id name)) (second.emit (.materialize other name))
      (fun _ _ => True) left right) :
    March pool first second (fun binding other => binding.isValue = other.isValue)
      (onceValue id name left) (onceValue other name right) := by
  refine once_march sound pending otherPending ?_
  rw [map_eq_pure_bind, map_eq_pure_bind]
  refine SameOutcome.bind steps ?_
  rintro value firstAfter otherValue secondAfter ⟨-, abreast⟩
  exact .ok ⟨rfl, abreast⟩

/-- The loop variables in indices belong to the pool: a new index is a constant. -/
theorem stands_of_becomes (sound : pool.Sound next) {args : List IndexArg} {indices : List Expr}
    (members : ∀ arg ∈ args, pool.index arg)
    (listed : List.Forall₂ (IndexArg.Becomes next) args indices) {map : AffineMap}
    {refs : List LoopRef} (read : Extraction.access indices [] = .ok map refs) :
    ∀ ref ∈ refs, Extraction.Stands pool.expr ref := by
  let nodes : Expr → Prop := fun expr =>
    pool.expr expr ∨ ∃ id dtype value, expr = .constant id dtype value
  have closed : ∀ {expr : Expr}, nodes expr → ∀ operand ∈ expr.operands, nodes operand := by
    rintro expr (member | ⟨id, dtype, value, rfl⟩) operand below
    · exact .inl (sound.operands member operand below)
    · cases below
  have indexed : ∀ expr ∈ indices, nodes expr := by
    clear read
    induction listed with
    | nil => simp
    | cons becomes _ ih =>
        refine List.forall_mem_cons.mpr ⟨?_, ih fun arg later =>
          members arg (List.mem_cons_of_mem _ later)⟩
        cases becomes with
        | expr => exact .inl (members _ List.mem_cons_self)
        | const value => exact .inr ⟨_, _, _, rfl⟩
  intro ref listed
  obtain ⟨expr, member | ⟨id, dtype, value, rfl⟩, same, named⟩ :=
    Extraction.access_stands closed indexed read ref listed
  · exact ⟨expr, member, same, named⟩
  · cases named

theorem emitStore_eq (value : Value) (tensor : Tensor) {args : List IndexArg}
    {indices others : List Expr} (listed : List.Forall₂ (IndexArg.Becomes next) args indices)
    (otherListed : List.Forall₂ (IndexArg.Becomes next) args others) :
    emitStore value tensor indices = emitStore value tensor others := by
  have count : indices.length = others.length := listed.length_eq.symm.trans otherListed.length_eq
  have reads : affineAccess indices = affineAccess others := by
    rw [affineAccess, affineAccess, IndexArg.access_eq listed otherListed, count]
  rw [emitStore, emitStore, reads]

/-- Nodes that are the same have one type, or none. -/
theorem valueType_same {α β : Type} {done : α → Context → β → Context → Prop}
    {left : DType → BuildM α} {right : DType → BuildM β} (renews : expr.Renews next other)
    (later : ∀ dtype, SameOutcome done (left dtype first) (right dtype second)) :
    SameOutcome done ((valueType expr >>= left) first) ((valueType other >>= right) second) := by
  rw [valueType, valueType, renews.dtype?, renews.name]
  split
  · exact later _
  · exact .error _ _ _

/-- The value of an operand. -/
theorem operand_march {α β : Type} {related : α → β → Prop} {left : Value → BuildM α}
    {right : Value → BuildM β} (sound : pool.Sound next) (paired : Paired pool next first second)
    (renews : expr.Renews next other)
    (built : March pool first second (fun binding other => binding.isValue = other.isValue)
      (build expr) (build other))
    (later : ∀ value otherValue, Agree pool related (left value) (right otherValue)) :
    March pool first second related
      (build expr >>= fun binding => needValue expr.name binding >>= left)
      (build other >>= fun binding => needValue other.name binding >>= right) := by
  rw [renews.name]
  refine built.bind paired fun _ _ _ _ same reached => ?_
  exact ((needValue_agree _ same).march sound reached).bind reached
    fun value _ otherValue _ _ further => (later value otherValue).march sound further

/-- Building nodes that are alike has the same outcome. -/
theorem build_alike (sound : pool.Sound next) {expr other : Expr} {first second : Context}
    (alike : Alike pool next first second expr other) (paired : Paired pool next first second) :
    March pool first second (fun binding other => binding.isValue = other.isValue) (build expr)
      (build other) := by
  cases alike with
  | node member => exact (build_agree sound member).march sound paired
  | held left right =>
      obtain ⟨value, bound⟩ := left.bound
      obtain ⟨otherValue, otherBound⟩ := right.bound
      rw [March, build_of_bound bound, build_of_bound otherBound]
      exact .ok ⟨rfl, paired.tally.abreast⟩
  | constant dtype value left right =>
      rw [build, build]
      exact onceValue_march sound left right
        ((createValue_agree _ _ _ _ _ _ _ _).march sound (paired.emit _ _))
  | cast dtype left right renews inner =>
      rw [build, build]
      refine onceValue_march sound left right (valueType_same renews fun sourceType => ?_)
      exact operand_march sound (paired.emit _ _) renews
        (build_alike sound (inner.emit _ _) (paired.emit _ _)) fun _ _ => emitCast_agree _ _ _ _
  | store tensor left right renews inner members listed otherListed =>
      rw [build, build]
      refine once_march sound left right (operand_march sound (paired.emit _ _) renews
        (build_alike sound (inner.emit _ _) (paired.emit _ _)) fun value otherValue => ?_)
      rw [emitStore_eq otherValue tensor otherListed listed]
      exact (emitStore_agree (fun _ _ => stands_of_becomes sound members listed) _ _ _).bind
        fun _ _ _ => .pure rfl
termination_by expr

/-! ## Constructing -/

end BuildM

namespace Context

/-- A context in which one more identity was taken. -/
abbrev advance (context : Context) : Context := { context with nextId := context.nextId + 1 }

variable {pool : Pool} {next : NodeId} {first second firstAfter secondAfter : Context}
  {expr other : Expr}

theorem Unborn.advance {context : Context} (unborn : context.Unborn) : context.advance.Unborn :=
  fun id later => unborn id (Nat.le_of_succ_le later)

theorem Paired.advance (paired : Paired pool next first second) :
    Paired pool next first.advance second.advance where
  tally := { paired.tally with }
  left := paired.left.advance
  right := paired.right.advance
  leftLe := Nat.le_succ_of_le paired.leftLe
  rightLe := Nat.le_succ_of_le paired.rightLe

theorem Unborn.pending {context : Context} (unborn : context.Unborn) (le : next ≤ context.nextId) :
    context.advance.Pending next context.nextId :=
  ⟨le, Nat.lt_succ_self _, unborn _ (Nat.le_refl _)⟩

theorem Tally.roomy (tally : first.Tally pool second) (roomy : first.Roomy) : second.Roomy := by
  intro inPlace empty
  refine roomy (tally.mode ▸ inPlace) (List.length_eq_zero_iff.mp ?_)
  rw [tally.depth, empty, List.length_nil]

/-- Nodes that are the same and alike, in contexts in step. -/
structure Twins (pool : Pool) (next : NodeId) (expr : Expr) (first : Context) (other : Expr)
    (second : Context) : Prop where
  renews : expr.Renews next other
  alike : Alike pool next first second expr other
  paired : Paired pool next first second
  roomy : first.Roomy

theorem Twins.renewed (twins : Twins pool next expr first other second) (sound : pool.Sound next)
    (left : first.Renewed firstAfter) (right : second.Renewed secondAfter) :
    Twins pool next expr firstAfter other secondAfter where
  renews := twins.renews
  alike := twins.alike.mono left.toExtended right.toExtended
  paired := twins.paired.renewed sound left right
  roomy := left.roomy twins.roomy

theorem Twins.emit (twins : Twins pool next expr first other second) (event otherEvent : Event) :
    Twins pool next expr (first.emit event) other (second.emit otherEvent) where
  renews := twins.renews
  alike := twins.alike.emit event otherEvent
  paired := twins.paired.emit event otherEvent
  roomy := twins.roomy

end Context

namespace BuildM

open Context

variable {pool : Pool} {next : NodeId} {first second : Context} {expr other : Expr}

/-- The same constructor makes its node in both contexts, and builds both or neither. -/
theorem finish_alike (sound : pool.Sound next) (paired : Paired pool next first second)
    {node otherNode : NodeId → Expr}
    (alike : Alike pool next first.advance second.advance (node first.nextId)
      (otherNode second.nextId)) :
    SameOutcome (fun expr firstAfter other secondAfter =>
      expr = node first.nextId ∧ other = otherNode second.nextId ∧
        Paired pool next firstAfter secondAfter ∧
        ((∃ binding otherBinding, build expr first.advance = .ok binding firstAfter ∧
          build other second.advance = .ok otherBinding secondAfter) ∨
        firstAfter = first.advance ∧ secondAfter = second.advance))
      (finish node first) (finish otherNode second) := by
  have ready := alike.isReady_eq sound paired.advance.tally
  have leftRuns : finish node first = (if (first.mode.isInPlace &&
      first.advance.isReady (node first.nextId)) = true
      then do let _ ← build (node first.nextId); return node first.nextId
      else return node first.nextId : BuildM Expr) first.advance := rfl
  have rightRuns : finish otherNode second = (if (second.mode.isInPlace &&
      second.advance.isReady (otherNode second.nextId)) = true
      then do let _ ← build (otherNode second.nextId); return otherNode second.nextId
      else return otherNode second.nextId : BuildM Expr) second.advance := rfl
  rw [leftRuns, rightRuns, ← ready, ← paired.tally.mode]
  split
  · refine (build_alike sound alike paired.advance).and_ok.bind ?_
    rintro binding firstAfter otherBinding secondAfter ⟨⟨-, abreast⟩, leftBuilt, rightBuilt⟩
    exact .ok ⟨rfl, rfl, paired.advance.abreast abreast, .inl ⟨_, _, leftBuilt, rightBuilt⟩⟩
  · exact .ok ⟨rfl, rfl, paired.advance, .inr ⟨rfl, rfl⟩⟩

/-- A constant is made in both contexts. -/
theorem constant_twins (sound : pool.Sound next) (paired : Paired pool next first second)
    (roomy : first.Roomy) {dtype : DType} (valid : ∃ rank, dtype.rank = .ok rank)
    (value : Literal) :
    SameOutcome (Twins pool next) (constant value dtype first) (constant value dtype second) := by
  obtain ⟨_, firstAfter, left, rfl, renewed, held, pending⟩ :=
    (constant_renews valid value roomy paired.left).exists_ok
  obtain ⟨_, secondAfter, right, rfl, otherRenewed, otherHeld, otherPending⟩ :=
    (constant_renews valid value (paired.tally.roomy roomy) paired.right).exists_ok
  rw [left, right]
  refine .ok ⟨.constant dtype value paired.leftLe paired.rightLe, ?_,
    paired.renewed sound renewed otherRenewed, renewed.roomy roomy⟩
  cases mode : first.mode.isInPlace with
  | true => exact .held (held mode) (otherHeld (paired.tally.mode ▸ mode))
  | false =>
      have waits := pending mode
      have otherWaits := otherPending (paired.tally.mode ▸ mode)
      exact .constant dtype value { waits with new := paired.leftLe }
        { otherWaits with new := paired.rightLe }

/-- A cast that was built is bound to a value. -/
theorem held_of_build {context after : Context} {id : NodeId} {dtype : DType} {source : Expr}
    {binding : Binding} (unbound : context.binding? id = none) (old : id < after.nextId)
    (built : build (.cast id dtype source) context = .ok binding after) : after.Held id := by
  have bound := build_bound built
  rw [build] at built
  obtain ⟨value, -, rfl, -⟩ := onceValue_eq_ok unbound built
  exact ⟨old, value, bound⟩

/-- Casts of twins are twins. -/
theorem castNode_twins (sound : pool.Sound next) (twins : Twins pool next expr first other second)
    (target : DType) :
    SameOutcome (Twins pool next) (castNode expr target first) (castNode other target second) := by
  rw [castNode, castNode]
  refine valueType_same twins.renews fun source => ?_
  split
  · exact .ok twins
  have paired := twins.paired
  have pending := paired.left.pending paired.leftLe
  have otherPending := paired.right.pending paired.rightLe
  have inner : Alike pool next first.advance second.advance expr other :=
    twins.alike.mono ⟨fun _ _ => rfl, Nat.le_succ _⟩ ⟨fun _ _ => rfl, Nat.le_succ _⟩
  have alike := Alike.cast target pending otherPending twins.renews inner
  refine (finish_alike sound paired alike).mono ?_
  rintro _ firstAfter _ secondAfter ⟨rfl, rfl, reached, outcome⟩
  have renews := Expr.Renews.cast target paired.leftLe paired.rightLe twins.renews
  rcases outcome with ⟨binding, otherBinding, built, otherBuilt⟩ | ⟨rfl, rfl⟩
  · have emits := (build_emits _ first.advance).of_ok built
    have otherEmits := (build_emits _ second.advance).of_ok otherBuilt
    refine ⟨renews, .held ?_ ?_, reached, ?_⟩
    · exact held_of_build pending.unbound emits.nextId_le built
    · exact held_of_build otherPending.unbound otherEmits.nextId_le otherBuilt
    · rw [Roomy, emits.mode, emits.stack]
      exact twins.roomy
  · exact ⟨renews, alike, reached, twins.roomy⟩

/-- A value as it is stored. -/
theorem storedValue_twins (sound : pool.Sound next) (tensor : Tensor)
    (twins : Twins pool next expr first other second) :
    SameOutcome (Twins pool next) (storedValue tensor expr first)
      (storedValue tensor other second) := by
  rw [storedValue, storedValue]
  refine valueType_same twins.renews fun source => ?_
  split
  · exact .ok twins
  · exact castNode_twins sound (twins.emit _ _) tensor.dtype

end BuildM

end AffineKernel
