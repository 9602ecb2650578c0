import AffineKernel.Proofs.Build.Bindings
import AffineKernel.Proofs.Build.Occurrences
import Mathlib.Logic.Relation

/-!
# Runs over shared nodes

A tree stands for a graph in which the nodes with one identity are shared.
Building it walks down to nodes that are bound, and on the way back each node
that was not bound is turned into operations and bound. The walk follows the
operands whose values a node is made of (`Expr.Uses`): not the indices of an
access, which become an affine map, and not what a reduction reduces, which is
built inside of its nest.

One step of the walk creates the operations of a node whose operands are bound,
and binds the node (`Context.Gains`); the walk is a run of such steps
(`Context.Runs`). A run loses no binding and binds no node twice. If the
operands of all bound nodes are bound, which a run preserves (`Context.Closed`),
then a run that binds a node has bound just the nodes below it that were not
bound before (`Context.Runs.mem_iff`). If there is no reduction among these, it
is known which operations the run has created, and where
(`Context.Materializes`).
-/

set_option autoImplicit false

namespace AffineKernel

/-! ## The operands of a node -/

namespace Expr

/-- Whether a node is a reduction. -/
def isReduce : Expr → Bool
  | .reduce .. => true
  | _ => false

/-- The operands whose values a node is made of. -/
def valueOperands : Expr → List Expr
  | .load .. | .reduce .. => []
  | .store _ _ value _ => [value]
  | expr => expr.operands

/-- Number of operations that a node becomes, unless it is a reduction. -/
def operationCount : Expr → Nat
  | .binary _ dtype .floorDiv _ _ => if dtype.isFloat then 2 else 1
  | _ => 1

/-- What a node is bound to if `last` is the last one of its operations. -/
def bindingTo (expr : Expr) (last : OpId) : Binding :=
  if expr.isStatement then .op last else .value (.result last 0)

/-- A node is made of the value of another one. -/
def Uses (user operand : Expr) : Prop := operand ∈ user.valueOperands

/-- A node is another one, or below it. -/
abbrev Reaches : Expr → Expr → Prop := Relation.ReflTransGen Uses

/-- A node is strictly below another one. -/
abbrev Above : Expr → Expr → Prop := Relation.TransGen Uses

theorem valueOperands_subset (expr : Expr) : ∀ operand ∈ expr.valueOperands,
    operand ∈ expr.operands := by
  cases expr <;> simp [valueOperands, operands]

theorem Uses.sizeOf_lt {user operand : Expr} (uses : user.Uses operand) :
    sizeOf operand < sizeOf user := sizeOf_operand_lt (valueOperands_subset user operand uses)

/-- A node is not below itself. -/
theorem Above.sizeOf_lt {root expr : Expr} (above : root.Above expr) :
    sizeOf expr < sizeOf root := by
  induction above with
  | single uses => exact uses.sizeOf_lt
  | tail _ uses ih => exact Nat.lt_trans uses.sizeOf_lt ih

end Expr

namespace Pool.Sound

variable {pool : Pool} {next : NodeId} {root expr : Expr}

theorem reaches (sound : pool.Sound next) (member : pool.expr root) (reaches : root.Reaches expr) :
    pool.expr expr := by
  induction reaches with
  | refl => exact member
  | tail _ uses ih => exact sound.operands ih _ (Expr.valueOperands_subset _ _ uses)

theorem id_ne (sound : pool.Sound next) (member : pool.expr root) (above : root.Above expr) :
    expr.id ≠ root.id := by
  intro same
  have below := sound.reaches member above.to_reflTransGen
  have lt := above.sizeOf_lt
  rw [sound.unique below member same] at lt
  exact Nat.lt_irrefl _ lt

end Pool.Sound

namespace Context

variable {pool wider : Pool} {next : NodeId} {before middle after context : Context}
  {node : Expr} {ops more : List OpId} {made others : List (Expr × List OpId)}

theorem isBound_iff {id : NodeId} :
    context.isBound id = true ↔ ∃ binding, context.binding? id = some binding := by
  rw [isBound, Option.isSome_iff_exists]

theorem isBound_bind (context : Context) (id other : NodeId) (binding : Binding) :
    (context.bind id binding).isBound other = (decide (id = other) || context.isBound other) := by
  rw [isBound, binding?_bind]
  split <;> simp_all [isBound]

theorem Quiet.binding? (quiet : Quiet before after) (id : NodeId) :
    after.binding? id = before.binding? id := congrArg (Table.find? · id) quiet.bindings

/-! ## Creations without a binding -/

/-- Operations are created, and the bindings are the same afterwards. -/
structure Spares (before after : Context) : Prop where
  emits : Emits [] before after
  bindings : ∀ id, after.binding? id = before.binding? id

/-- Just these operations are created, at the insertion point. -/
structure Creates (before : Context) (ops : List OpId) (after : Context) : Prop
    extends Spares before after where
  listed : ∀ point, before.stack.head? = some point →
    before.module.added after.module point.block = ops
  counted : after.module.size = before.module.size + ops.length

theorem Spares.chains : BuildM.Chains Spares where
  refl context := ⟨.refl context, fun _ => rfl⟩
  trans first second := ⟨first.emits.trans second.emits,
    fun id => (second.bindings id).trans (first.bindings id)⟩

theorem Emits.head? (emits : Emits [] before after) : after.stack.head? = before.stack.head? := by
  rw [emits.stack]
  rfl

namespace Creates

theorem refl (context : Context) : Creates context [] context where
  toSpares := Spares.chains.refl context
  listed _ _ := Module.added_self _ _
  counted := rfl

theorem trans (first : Creates before ops middle) (second : Creates middle more after) :
    Creates before (ops ++ more) after where
  toSpares := Spares.chains.trans first.toSpares second.toSpares
  listed point head := by
    rw [Module.added_append first.emits.fills.retains second.emits.fills.retains,
      first.listed point head, second.listed point (first.emits.head?.trans head)]
  counted := by
    rw [second.counted, first.counted, List.length_append]
    omega

theorem emit (context : Context) (event : Event) : Creates context [] (context.emit event) where
  emits := .emit context event
  bindings _ := rfl
  listed _ _ := Module.added_self _ _
  counted := rfl

end Creates

/-! ## Steps -/

/-- The operations of a node are created, and the node is bound. -/
structure Gains (before : Context) (node : Expr) (ops : List OpId) (after : Context) : Prop where
  free : before.isBound node.id = false
  plain : node.isAxis = false
  ready : ∀ operand, node.Uses operand → before.isBound operand.id = true
  binds : ∃ middle binding, Spares before middle ∧ after = middle.bind node.id binding ∧
    (node.isReduce = false → Creates before ops middle ∧ ops.length = node.operationCount ∧
      ∃ last, ops.getLast? = some last ∧ binding = node.bindingTo last)

namespace Gains

theorem emits (gains : Gains before node ops after) : Emits [] before after := by
  obtain ⟨middle, binding, spares, rfl, -⟩ := gains.binds
  exact spares.emits.trans (.bind middle _ _)

theorem binding?_of_ne (gains : Gains before node ops after) {id : NodeId} (other : node.id ≠ id) :
    after.binding? id = before.binding? id := by
  obtain ⟨middle, binding, spares, rfl, -⟩ := gains.binds
  rw [binding?_bind, if_neg other, spares.bindings]

theorem isBound_iff (gains : Gains before node ops after) (id : NodeId) :
    after.isBound id = true ↔ node.id = id ∨ before.isBound id = true := by
  obtain ⟨middle, binding, spares, rfl, -⟩ := gains.binds
  rw [isBound_bind, Bool.or_eq_true, decide_eq_true_iff, isBound, spares.bindings, isBound]

theorem binding?_of_single (gains : Gains before node ops after) (single : node.isReduce = false) :
    ∃ last, ops.getLast? = some last ∧ after.binding? node.id = some (node.bindingTo last) := by
  obtain ⟨middle, binding, spares, rfl, known⟩ := gains.binds
  obtain ⟨-, -, last, found, rfl⟩ := known single
  exact ⟨last, found, by simp [binding?_bind]⟩

end Gains

/-! ## Runs -/

/-- Nodes are turned into operations and bound, one after the other. -/
inductive Runs (before : Context) : List (Expr × List OpId) → Context → Prop where
  | refl : Runs before [] before
  | quiet {middle after : Context} {made : List (Expr × List OpId)} :
      Runs before made middle → Creates middle [] after → Runs before made after
  | gain {middle after : Context} {made : List (Expr × List OpId)} {node : Expr}
      {ops : List OpId} :
      Runs before made middle → Gains middle node ops after →
      Runs before (made ++ [(node, ops)]) after

/-- What was bound is bound to the same. -/
def Stays (before after : Context) : Prop :=
  ∀ id binding, before.binding? id = some binding → after.binding? id = some binding

theorem Stays.chains : BuildM.Chains Stays where
  refl _ _ _ found := found
  trans first second id binding found := second id binding (first id binding found)

theorem Stays.isBound (stays : Stays before after) {id : NodeId}
    (bound : before.isBound id = true) : after.isBound id = true := by
  obtain ⟨binding, found⟩ := Context.isBound_iff.mp bound
  exact Context.isBound_iff.mpr ⟨binding, stays id binding found⟩

theorem Stays.of_same (same : ∀ id, after.binding? id = before.binding? id) : Stays before after :=
  fun id _ found => (same id).trans found

/-- The operands of the nodes of a pool that are bound are bound as well. -/
def Closed (pool : Pool) (context : Context) : Prop :=
  ∀ expr, pool.expr expr → context.isBound expr.id = true →
    ∀ operand, expr.Uses operand → context.isBound operand.id = true

/-- No axis of a pool is bound. -/
def Unswept (pool : Pool) (context : Context) : Prop :=
  ∀ id, pool.Axis id → context.isBound id = false

/-- The nodes that a node reaches are bound if it is. -/
theorem Closed.reaches (closed : context.Closed pool) (sound : pool.Sound next) {root expr : Expr}
    (member : pool.expr root) (bound : context.isBound root.id = true)
    (reaches : root.Reaches expr) : context.isBound expr.id = true := by
  induction reaches with
  | refl => exact bound
  | tail reached uses ih => exact closed _ (sound.reaches member reached) ih _ uses

theorem Closed.of_same (closed : before.Closed pool)
    (same : ∀ id, after.binding? id = before.binding? id) : after.Closed pool := by
  have bound : ∀ id, after.isBound id = before.isBound id :=
    fun id => by rw [isBound, same, isBound]
  intro expr member there operand uses
  rw [bound] at there ⊢
  exact closed expr member there operand uses

namespace Runs

theorem trans (first : Runs before made middle) (second : Runs middle others after) :
    Runs before (made ++ others) after := by
  induction second with
  | refl => rwa [List.append_nil]
  | quiet _ adds ih => exact .quiet ih adds
  | gain _ gains ih =>
      rw [← List.append_assoc]
      exact .gain ih gains

theorem emits (runs : Runs before made after) : Emits [] before after := by
  induction runs with
  | refl => exact .refl before
  | quiet _ adds ih => exact ih.trans adds.emits
  | gain _ gains ih => exact ih.trans gains.emits

/-- Nodes that the run does not bind are bound as before. -/
theorem binding?_of_not_mem (runs : Runs before made after) {id : NodeId}
    (absent : ∀ entry ∈ made, entry.1.id ≠ id) : after.binding? id = before.binding? id := by
  induction runs with
  | refl => rfl
  | quiet _ adds ih => rw [adds.bindings, ih absent]
  | gain _ gains ih =>
      rw [List.forall_mem_append, List.forall_mem_singleton] at absent
      rw [gains.binding?_of_ne absent.2, ih absent.1]

/-- After a run those nodes are bound that it has bound, and those that were bound before. -/
theorem isBound_iff (runs : Runs before made after) (id : NodeId) :
    after.isBound id = true ↔ (∃ entry ∈ made, entry.1.id = id) ∨ before.isBound id = true := by
  induction runs with
  | refl => simp
  | quiet _ adds ih => rw [isBound, adds.bindings, ← isBound, ih]
  | gain _ gains ih =>
      rw [gains.isBound_iff, ih]
      simp only [List.mem_append, List.mem_singleton, or_and_right, exists_or, exists_eq_left]
      rw [or_left_comm, or_assoc]

/-- A run binds nodes that were not bound before. -/
theorem free (runs : Runs before made after) :
    ∀ entry ∈ made, before.isBound entry.1.id = false := by
  induction runs with
  | refl => simp
  | quiet _ _ ih => exact ih
  | gain runs gains ih =>
      intro entry listed
      rcases List.mem_append.mp listed with old | new
      · exact ih entry old
      · rw [List.mem_singleton.mp new]
        have free := gains.free
        rw [← Bool.not_eq_true, runs.isBound_iff, not_or] at free
        exact Bool.not_eq_true _ ▸ free.2

/-- A run binds no node twice. -/
theorem nodup (runs : Runs before made after) : (made.map fun entry => entry.1.id).Nodup := by
  induction runs with
  | refl => simp
  | quiet _ _ ih => exact ih
  | gain runs gains ih =>
      have free := gains.free
      rw [← Bool.not_eq_true, runs.isBound_iff, not_or] at free
      rw [List.map_append, List.map_singleton, List.nodup_append]
      refine ⟨ih, List.pairwise_singleton _ _, fun id listed other new same => free.1 ?_⟩
      obtain ⟨entry, member, rfl⟩ := List.mem_map.mp listed
      exact ⟨entry, member, same.trans (List.mem_singleton.mp new)⟩

/-- A run loses no binding. -/
theorem stays (runs : Runs before made after) : Stays before after := by
  intro id binding found
  rw [runs.binding?_of_not_mem fun entry listed same => ?_, found]
  have free := runs.free entry listed
  rw [same, isBound, found] at free
  cases free

/-- When a node is bound, its operands are. -/
theorem ready (runs : Runs before made after) {front back : List (Expr × List OpId)}
    (split : made = front ++ (node, ops) :: back) :
    ∀ operand, node.Uses operand →
      before.isBound operand.id = true ∨ ∃ entry ∈ front, entry.1.id = operand.id := by
  induction runs generalizing back with
  | refl => simp at split
  | quiet _ _ ih => exact ih split
  | @gain _ _ made last lastOps runs gains ih =>
      rcases List.eq_nil_or_concat back with rfl | ⟨rest, final, rfl⟩
      · obtain ⟨rfl, same⟩ := List.append_inj' split rfl
        cases same
        intro operand uses
        exact ((runs.isBound_iff operand.id).mp (gains.ready operand uses)).symm
      · have split : made ++ [(last, lastOps)] = (front ++ (node, ops) :: rest) ++ [final] := by
          simpa using split
        exact ih (List.append_inj' split rfl).1

/-- Each node of a run is bound to the last one of its operations, of which it has as many as is
due. -/
theorem single (runs : Runs before made after) : ∀ entry ∈ made, entry.1.isReduce = false →
    entry.2.length = entry.1.operationCount ∧ ∃ last, entry.2.getLast? = some last ∧
      after.binding? entry.1.id = some (entry.1.bindingTo last) := by
  induction runs with
  | refl => simp
  | quiet _ adds ih =>
      intro entry listed single
      rw [adds.bindings]
      exact ih entry listed single
  | gain runs gains ih =>
      have nodup := (Runs.gain runs gains).nodup
      rw [List.map_append, List.nodup_append] at nodup
      intro entry listed single
      rcases List.mem_append.mp listed with old | new
      · rw [gains.binding?_of_ne fun same => nodup.2.2 entry.1.id
          (List.mem_map_of_mem old) _ (by simp) same.symm]
        exact ih entry old single
      · rw [List.mem_singleton.mp new] at single ⊢
        obtain ⟨_, _, -, -, known⟩ := gains.binds
        exact ⟨(known single).2.1, gains.binding?_of_single single⟩

/-- What a run without reductions creates. -/
theorem listed (runs : Runs before made after) (plain : ∀ entry ∈ made, entry.1.isReduce = false) :
    (∀ point, before.stack.head? = some point →
      before.module.added after.module point.block = made.flatMap Prod.snd) ∧
      after.module.size = before.module.size + (made.flatMap Prod.snd).length := by
  induction runs with
  | refl => exact ⟨fun _ _ => Module.added_self _ _, rfl⟩
  | quiet runs adds ih =>
      obtain ⟨listed, counted⟩ := ih plain
      refine ⟨fun point head => ?_, adds.counted.trans counted⟩
      rw [Module.added_append runs.emits.fills.retains adds.emits.fills.retains,
        listed point head, adds.listed point (runs.emits.head?.trans head), List.append_nil]
  | @gain _ _ made node ops runs gains ih =>
      obtain ⟨listed, counted⟩ := ih fun entry old => plain entry (by simp [old])
      obtain ⟨middle, binding, -, rfl, known⟩ := gains.binds
      have adds := (known (plain (node, ops) (by simp))).1
      refine ⟨fun point head => ?_, ?_⟩
      · change before.module.added middle.module point.block = _
        rw [Module.added_append runs.emits.fills.retains adds.emits.fills.retains,
          listed point head, adds.listed point (runs.emits.head?.trans head), List.flatMap_append,
          List.flatMap_singleton]
      · change middle.module.size = _
        rw [adds.counted, counted, List.flatMap_append, List.length_append, List.flatMap_singleton,
          Nat.add_assoc]

theorem closed (runs : Runs before made after) (sound : pool.Sound next)
    (members : ∀ entry ∈ made, pool.expr entry.1) (closed : before.Closed pool) :
    after.Closed pool := by
  induction runs with
  | refl => exact closed
  | quiet _ adds ih => exact (ih members).of_same adds.bindings
  | gain _ gains ih =>
      rw [List.forall_mem_append, List.forall_mem_singleton] at members
      have inner := ih members.1
      intro expr member bound operand uses
      rw [gains.isBound_iff] at bound ⊢
      rcases bound with same | old
      · obtain rfl := sound.unique members.2 member same
        exact .inr (gains.ready operand uses)
      · exact .inr (inner expr member old operand uses)

theorem unswept (runs : Runs before made after) (sound : pool.Sound next)
    (members : ∀ entry ∈ made, pool.expr entry.1) (unswept : before.Unswept pool) :
    after.Unswept pool := by
  intro id axis
  rw [← Bool.not_eq_true, runs.isBound_iff]
  rintro (⟨entry, listed, rfl⟩ | bound)
  · refine sound.not_plain axis ⟨entry.1, members entry listed, rfl, ?_⟩
    clear axis
    induction runs with
    | refl => simp at listed
    | quiet _ _ ih => exact ih members listed
    | gain _ gains ih =>
        rcases List.mem_append.mp listed with old | new
        · exact ih (fun other there => members other (List.mem_append_left _ there)) old
        · rw [List.mem_singleton.mp new]
          exact gains.plain
  · rw [unswept id axis] at bound
    cases bound

/-- A run that binds a node, over nodes that it reaches, has bound just those of them that were not
bound before. -/
theorem mem_iff (runs : Runs before made after) (sound : pool.Sound next) {root : Expr}
    (member : pool.expr root) (closed : before.Closed pool)
    (reached : ∀ entry ∈ made, root.Reaches entry.1) (bound : after.isBound root.id = true)
    (node : Expr) :
    (∃ ops, (node, ops) ∈ made) ↔ root.Reaches node ∧ before.isBound node.id = false := by
  constructor
  · rintro ⟨ops, listed⟩
    exact ⟨reached _ listed, runs.free _ listed⟩
  · rintro ⟨reaches, free⟩
    have members : ∀ entry ∈ made, pool.expr entry.1 :=
      fun entry listed => sound.reaches member (reached entry listed)
    have there := (runs.closed sound members closed).reaches sound member bound reaches
    rw [runs.isBound_iff, free] at there
    obtain ⟨entry, listed, same⟩ := there.resolve_right Bool.false_ne_true
    obtain rfl := sound.unique (members entry listed) (sound.reaches member reaches) same
    exact ⟨entry.2, listed⟩

end Runs

/-! ## Nodes without reductions -/

/-- Building `root` at an insertion point turns nodes into operations: `made` lists each of them
with its operations. -/
structure Materializes (root : Expr) (point : InsertionPoint) (before : Context)
    (made : List (Expr × List OpId)) (after : Context) : Prop where
  /-- They are the nodes that the root reaches and that were not bound before. -/
  nodes : ∀ node, (∃ ops, (node, ops) ∈ made) ↔
    root.Reaches node ∧ before.isBound node.id = false
  distinct : (made.map fun entry => entry.1.id).Nodup
  counts : ∀ entry ∈ made, entry.2.length = entry.1.operationCount
  /-- No other operation is created. -/
  size : after.module.size = before.module.size + (made.flatMap Prod.snd).length
  /-- The block of the insertion point receives the operations in this order. -/
  operations : before.module.added after.module point.block = made.flatMap Prod.snd
  placed : Module.Fills (some point) before.module after.module
  /-- A node is listed after those that it is made of. -/
  ordered : ∀ front node ops back, made = front ++ (node, ops) :: back →
    ∀ operand, node.Uses operand →
      before.isBound operand.id = true ∨ ∃ earlier, (operand, earlier) ∈ front
  bound : ∀ entry ∈ made, ∃ last, entry.2.getLast? = some last ∧
    after.binding? entry.1.id = some (entry.1.bindingTo last)
  kept : ∀ id, (∀ entry ∈ made, entry.1.id ≠ id) → after.binding? id = before.binding? id
  stack : after.stack = before.stack

theorem Runs.materializes (runs : Runs before made after) (sound : pool.Sound next) {root : Expr}
    (member : pool.expr root) (closed : before.Closed pool)
    (reached : ∀ entry ∈ made, root.Reaches entry.1) (bound : after.isBound root.id = true)
    (plain : ∀ node, root.Reaches node → node.isReduce = false) {point : InsertionPoint}
    {rest : List InsertionPoint} (stack : before.stack = point :: rest) :
    Materializes root point before made after := by
  have single := fun entry there => runs.single entry there (plain _ (reached entry there))
  have head : before.stack.head? = some point := by rw [stack, List.head?_cons]
  obtain ⟨listed, counted⟩ := runs.listed fun entry there => plain _ (reached entry there)
  refine
    { nodes := runs.mem_iff sound member closed reached bound
      distinct := runs.nodup
      counts := fun entry there => (single entry there).1
      size := counted
      operations := listed point head
      placed := head ▸ runs.emits.fills
      ordered := ?_
      bound := fun entry there => (single entry there).2
      kept := fun id => runs.binding?_of_not_mem
      stack := runs.emits.stack }
  intro front node ops back split operand uses
  refine (runs.ready split operand uses).imp_right ?_
  rintro ⟨⟨earlier, earlierOps⟩, there, same⟩
  have inside : pool.expr earlier := sound.reaches member
    (reached (earlier, earlierOps) (by rw [split]; exact List.mem_append_left _ there))
  have below : pool.expr operand := sound.reaches member
    ((reached (node, ops) (by simp [split])).tail uses)
  obtain rfl := sound.unique inside below same
  exact ⟨earlierOps, there⟩

end Context

end AffineKernel
