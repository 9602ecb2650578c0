import AffineKernel.Proofs.Build.Pool
import AffineKernel.Proofs.Semantics.Control
import AffineKernel.Proofs.Semantics.Meaning

/-!
# Deeds

A deed is a statement of an imperative program over tensors: an expression is
evaluated, or written into an element of a tensor; a body is repeated for the
numbers of a range, or done on a condition. `Deed.perform` reads it directly, in
the order in which it is written: expressions are evaluated in the memory as it
is at that moment, and no operation, block or cache is involved.

A node has one value for as long as nothing is written, so a deed has nodes of
its own: `Deed.ids` are the identities of the nodes that it evaluates itself,
loop variables apart, and deeds that are unshared have disjoint ones.
-/

set_option autoImplicit false

namespace AffineKernel

/-! ## Nodes of expressions -/

mutual

/-- The identities of the nodes of an expression, loop variables apart. -/
def Expr.ids : Expr → List NodeId
  | .loopVar .. | .axis .. => []
  | .constant id .. => [id]
  | .unary id _ _ operand | .cast id _ operand => id :: operand.ids
  | .binary id _ _ lhs rhs | .compare id _ lhs rhs | .getBit id lhs rhs => id :: (lhs.ids ++ rhs.ids)
  | .load id _ indices => id :: idsOf indices
  | .store id _ value indices => id :: (value.ids ++ idsOf indices)
  | .select id _ condition thenValue elseValue =>
    id :: (condition.ids ++ (thenValue.ids ++ elseValue.ids))
  | .call id _ _ args => id :: idsOfArgs args
  | .reduce id _ _ body axes => id :: (body.ids ++ idsOf axes)

/-- The identities of the nodes of expressions. -/
def idsOf : List Expr → List NodeId
  | [] => []
  | expr :: rest => expr.ids ++ idsOf rest

/-- The identities of the nodes of the arguments of a call. -/
def idsOfArgs : List CallArg → List NodeId
  | [] => []
  | .expr value :: rest => value.ids ++ idsOfArgs rest
  | .tensor _ :: rest => idsOfArgs rest

end

theorem ids_subset_idsOf {expr : Expr} {exprs : List Expr} (listed : expr ∈ exprs) :
    expr.ids ⊆ idsOf exprs := by
  induction exprs with
  | nil => cases listed
  | cons first rest ih =>
      intro id inside
      rw [idsOf, List.mem_append]
      rcases List.mem_cons.mp listed with rfl | later
      · exact .inl inside
      · exact .inr (ih later inside)

theorem ids_subset_idsOfArgs {expr : Expr} : ∀ {args : List CallArg}, expr ∈ CallArg.exprs args →
    expr.ids ⊆ idsOfArgs args
  | [], listed => by cases listed
  | .tensor _ :: rest, listed => @ids_subset_idsOfArgs expr rest listed
  | .expr value :: rest, listed => by
      intro id inside
      rw [idsOfArgs, List.mem_append]
      rcases List.mem_cons.mp listed with rfl | later
      · exact .inl inside
      · exact .inr (ids_subset_idsOfArgs later inside)

namespace Expr

/-- A node of an expression: the expression itself, or an operand of a node of it. -/
inductive Below (root : Expr) : Expr → Prop where
  | root : Below root root
  | operand {expr operand : Expr} : Below root expr → operand ∈ expr.operands → Below root operand

theorem ids_operand {expr operand : Expr} (listed : operand ∈ expr.operands) :
    operand.ids ⊆ expr.ids := by
  intro id inside
  cases expr with
  | constant | loopVar | axis => cases listed
  | load _ _ indices =>
      rw [ids]
      exact List.mem_cons_of_mem _ (ids_subset_idsOf listed inside)
  | call _ _ _ args =>
      rw [ids]
      exact List.mem_cons_of_mem _ (ids_subset_idsOfArgs listed inside)
  | store _ _ value indices =>
      rw [ids, List.mem_cons, List.mem_append]
      rcases List.mem_cons.mp listed with rfl | index
      · exact .inr (.inl inside)
      · exact .inr (.inr (ids_subset_idsOf index inside))
  | reduce _ _ _ body axes =>
      rw [ids, List.mem_cons, List.mem_append]
      rcases List.mem_cons.mp listed with rfl | axis
      · exact .inr (.inl inside)
      · exact .inr (.inr (ids_subset_idsOf axis inside))
  | unary | cast | binary | compare | getBit | select =>
      simp only [operands, List.mem_cons, List.not_mem_nil, or_false] at listed
      simp only [ids, List.mem_cons, List.mem_append]
      grind

theorem Below.ids_subset {root expr : Expr} (below : root.Below expr) : expr.ids ⊆ root.ids := by
  induction below with
  | root => exact List.Subset.refl _
  | operand _ listed ih => exact List.Subset.trans (ids_operand listed) ih

/-- A node that is no loop variable is among the identities of the expression. -/
theorem Below.id_mem {root expr : Expr} (below : root.Below expr) (plain : expr.loopName? = none) :
    expr.id ∈ root.ids := by
  have own : expr.id ∈ expr.ids := by
    cases expr with
    | loopVar | axis => cases plain
    | _ => simp [ids, id]
  exact below.ids_subset own

end Expr

/-! ## Deeds and what they do -/

/-- A statement of an imperative program. -/
inductive Deed where
  /-- The value of an expression is computed, and dropped. -/
  | evaluate (expr : Expr)
  /-- The value of an expression is written into the element of a tensor at an index tuple. -/
  | write (id : NodeId) (tensor : Tensor) (value : Expr) (indices : List Expr)
  /-- A body is repeated while a loop variable counts from `lower` to below `upper`. -/
  | loop (counter : NodeId) (lower upper : Bound) (step : Nat) (body : List Deed)
  /-- A body is done if a condition is one. -/
  | branch (condition : Expr) (body : List Deed)

/-- Other contents for a tensor. -/
def Memory.set (memory : Memory) (id : NodeId) (buffer : Buffer) : Memory :=
  fun other => if other = id then some buffer else memory other

/-- A scalar as a number. -/
def Meaning.number : Scalar → Except Fault Int
  | .int number => .ok number
  | .float _ => .error .meaningless

/-- The number of a bound: a literal, or the value of an expression as an `index`. -/
def Meaning.bound (env : Env) (memory : Memory) : Bound → Except Fault Int
  | .const value => .ok value.toInt
  | .expr value => do
    let scalar ← value.value env memory
    match value.dtype? with
    | some dtype => Meaning.number (scalar.convert dtype .index)
    | none => .error .meaningless

namespace Deed

mutual

/-- What a deed makes of the memory. A step of zero counts as one; the number after the last one of
a loop has to be a word. -/
def perform : Deed → Env → Memory → Except Fault Memory
  | .evaluate expr, env, memory => do
    let _ ← expr.value env memory
    return memory
  | .write _ tensor value indices, env, memory => do
    let scalar ← value.value env memory
    let tuple ← Meaning.indices env indices
    let buffer ← Meaning.contents memory tensor
    let written ← Meaning.write buffer tuple scalar
    return memory.set tensor.id written
  | .loop counter lower upper step body, env, memory => do
    let low ← Meaning.bound env memory lower
    let high ← Meaning.bound env memory upper
    let memory ← (counters low high (max step 1)).foldlM
      (fun memory number => performAll body (env.set counter number) memory) memory
    Meaning.checked (Machine.LoopRange.overflows ⟨low, high, max step 1⟩)
    return memory
  | .branch condition body, env, memory => do
    let scalar ← condition.value env memory
    if scalar.asInt? = some 1 then performAll body env memory else return memory

/-- What deeds make of the memory, one after the other. -/
def performAll : List Deed → Env → Memory → Except Fault Memory
  | [], _, memory => .ok memory
  | deed :: rest, env, memory => do
    let memory ← deed.perform env memory
    performAll rest env memory

end

mutual

/-- How deep the bodies of a deed are nested. -/
def depth : Deed → Nat
  | .evaluate _ | .write .. => 0
  | .loop _ _ _ _ body | .branch _ body => depthAll body + 1

/-- How deep the bodies of deeds are nested. -/
def depthAll : List Deed → Nat
  | [] => 0
  | deed :: rest => max deed.depth (depthAll rest)

end

/-- The expressions that a deed evaluates itself; a write is a node, too. -/
def trees : Deed → List Expr
  | .evaluate expr => [expr]
  | .write id tensor value indices => [.store id tensor value indices]
  | .loop _ lower upper _ _ => lower.exprs ++ upper.exprs
  | .branch condition _ => [condition]

/-- The identities of the nodes that a deed evaluates itself, loop variables apart. -/
def ids (deed : Deed) : List NodeId := idsOf deed.trees

/-- A deed without reductions and calls, whose condition is a truth value and whose step is a
word of 32 bits; a loop variable alone is not evaluated. -/
def isPlain : Deed → Bool
  | .evaluate expr => expr.isFlat && expr.loopName?.isNone
  | .write _ _ value _ => value.isFlat
  | .loop _ lower upper step _ => (lower.exprs ++ upper.exprs).all Expr.isFlat && step < 2 ^ 32
  | .branch condition _ => condition.isFlat && condition.dtype? = some .bool

mutual

/-- A deed and all deeds in its body. -/
def all : Deed → List Deed
  | .evaluate expr => [.evaluate expr]
  | .write id tensor value indices => [.write id tensor value indices]
  | .loop counter lower upper step body => .loop counter lower upper step body :: allOf body
  | .branch condition body => .branch condition body :: allOf body

/-- Deeds and all deeds in their bodies. -/
def allOf : List Deed → List Deed
  | [] => []
  | deed :: rest => deed.all ++ allOf rest

end

theorem performAll_append (first second : List Deed) (env : Env) (memory : Memory) :
    performAll (first ++ second) env memory =
      performAll first env memory >>= performAll second env := by
  induction first generalizing memory with
  | nil => rfl
  | cons deed rest ih =>
      rw [List.cons_append, performAll, performAll, bind_assoc]
      congr 1
      funext changed
      exact ih changed

theorem depthAll_append (first second : List Deed) :
    depthAll (first ++ second) = max (depthAll first) (depthAll second) := by
  induction first with
  | nil => simp [depthAll]
  | cons deed rest ih => simp [depthAll, ih, Nat.max_assoc]

theorem allOf_append (first second : List Deed) :
    allOf (first ++ second) = allOf first ++ allOf second := by
  induction first with
  | nil => rfl
  | cons deed rest ih => simp [allOf, ih]

@[simp] theorem performAll_singleton (deed : Deed) : performAll [deed] = deed.perform := by
  funext env memory
  rw [performAll]
  exact bind_pure _

@[simp] theorem depthAll_singleton (deed : Deed) : depthAll [deed] = deed.depth := by
  simp [depthAll]

@[simp] theorem allOf_singleton (deed : Deed) : allOf [deed] = deed.all := by simp [allOf]

/-- Deeds, those in bodies listed with them, that are plain and have no nodes in common. -/
structure Unshared (deeds : List Deed) : Prop where
  plain : ∀ deed ∈ deeds, deed.isPlain = true
  apart : deeds.Pairwise fun deed other => ∀ id ∈ deed.ids, id ∉ other.ids

instance (deeds : List Deed) : Decidable (Unshared deeds) :=
  decidable_of_iff ((∀ deed ∈ deeds, deed.isPlain = true) ∧
    deeds.Pairwise fun deed other => ∀ id ∈ deed.ids, id ∉ other.ids)
    ⟨fun both => ⟨both.1, both.2⟩, fun unshared => ⟨unshared.plain, unshared.apart⟩⟩

/-- Unshared deeds without nodes that were seen before. -/
structure Fresh (seen : List NodeId) (deeds : List Deed) : Prop extends Unshared deeds where
  new : ∀ deed ∈ deeds, ∀ id ∈ seen, id ∉ deed.ids

namespace Fresh

variable {seen : List NodeId} {first second : List Deed}

theorem left (fresh : Fresh seen (first ++ second)) : Fresh seen first where
  plain deed listed := fresh.plain deed (List.mem_append_left _ listed)
  apart := (List.pairwise_append.mp fresh.apart).1
  new deed listed := fresh.new deed (List.mem_append_left _ listed)

/-- The nodes of earlier deeds have been seen by later ones. -/
theorem right (fresh : Fresh seen (first ++ second)) :
    Fresh (seen ++ first.flatMap ids) second where
  plain deed listed := fresh.plain deed (List.mem_append_right _ listed)
  apart := (List.pairwise_append.mp fresh.apart).2.1
  new deed listed id known own := by
    rcases List.mem_append.mp known with old | earlier
    · exact fresh.new deed (List.mem_append_right _ listed) id old own
    · obtain ⟨other, before, inside⟩ := List.mem_flatMap.mp earlier
      exact (List.pairwise_append.mp fresh.apart).2.2 other before deed listed id inside own

/-- The nodes of a deed have been seen by the deeds in its body. -/
theorem body {deed : Deed} (fresh : Fresh seen (deed :: second)) :
    Fresh (seen ++ deed.ids) second := by
  have split : Fresh seen ([deed] ++ second) := fresh
  simpa using split.right

end Fresh

end Deed

end AffineKernel
