import AffineKernel.Build.Expr
import Mathlib.Data.List.Lex
import Mathlib.Data.Nat.Find

/-!
# Occurrences of nodes

A node that is shared occurs several times in an expression. Where it occurs is
told by a path, which says at each step which operand it goes to (`Expr.at?`).
Paths are ordered as words: a path comes before its continuations, and of two
paths that part the one that goes further to the left is first. So the order of
paths is the order in which a walk over the expression meets the occurrences,
depth first and from left to right.

An expression stands for a graph if its nodes are told apart by their identities
(`Expr.IsGraph`). Every node of it has exactly one first occurrence
(`Expr.exists_first`, `Expr.First.unique`).
-/

set_option autoImplicit false

namespace AffineKernel

namespace Expr

theorem sizeOf_callArg {args : List CallArg} {expr : Expr} (member : expr ∈ CallArg.exprs args) :
    sizeOf expr < sizeOf args := by
  induction args with
  | nil => simp [CallArg.exprs] at member
  | cons arg rest ih =>
      simp only [List.cons.sizeOf_spec]
      cases arg with
      | expr value =>
          simp only [CallArg.expr.sizeOf_spec]
          rcases List.mem_cons.mp member with rfl | later
          · omega
          · have := ih later
            omega
      | tensor tensor =>
          have := ih member
          omega

/-- An operand is smaller than the node that it belongs to. -/
theorem sizeOf_operand_lt {expr operand : Expr} (member : operand ∈ expr.operands) :
    sizeOf operand < sizeOf expr := by
  cases expr with
  | constant | loopVar | axis => simp [operands] at member
  | call id dtype callee args =>
      have := sizeOf_callArg member
      simp only [call.sizeOf_spec]
      omega
  | load id tensor indices =>
      have : sizeOf operand < sizeOf indices := List.sizeOf_lt_of_mem member
      simp only [load.sizeOf_spec]
      omega
  | store id tensor value indices =>
      simp only [store.sizeOf_spec]
      rcases List.mem_cons.mp member with rfl | later
      · omega
      · have := List.sizeOf_lt_of_mem later
        omega
  | reduce id dtype kind body axes =>
      simp only [reduce.sizeOf_spec]
      rcases List.mem_cons.mp member with rfl | later
      · omega
      · have := List.sizeOf_lt_of_mem later
        omega
  | unary | cast =>
      simp only [operands, List.mem_singleton] at member
      subst member
      simp only [unary.sizeOf_spec, cast.sizeOf_spec]
      omega
  | binary | compare | getBit | select =>
      simp only [operands, List.mem_cons, List.not_mem_nil, or_false] at member
      simp only [binary.sizeOf_spec, compare.sizeOf_spec, getBit.sizeOf_spec, select.sizeOf_spec]
      rcases member with rfl | rfl | rfl <;> omega

/-- What follows for a node from its operands holds of every node. -/
theorem operands_induction {motive : Expr → Prop}
    (step : ∀ expr : Expr, (∀ operand ∈ expr.operands, motive operand) → motive expr)
    (expr : Expr) : motive expr :=
  step expr fun operand _ => operands_induction step operand
termination_by sizeOf expr
decreasing_by exact sizeOf_operand_lt ‹_›

/-! ## Paths -/

/-- The node at a path. -/
def at? : Expr → List Nat → Option Expr
  | expr, [] => some expr
  | expr, step :: path => expr.operands[step]?.bind fun operand => operand.at? path

/-- A node occurs in an expression. -/
def Contains (root node : Expr) : Prop := ∃ path, root.at? path = some node

/-- A node of an identity occurs in an expression. -/
def Mentions (root : Expr) (id : NodeId) : Prop := ∃ node, root.Contains node ∧ node.id = id

/-- Nodes of one identity are the same node. -/
def IsGraph (root : Expr) : Prop :=
  ∀ node other, root.Contains node → root.Contains other → node.id = other.id → node = other

/-- A path leads to the first occurrence of a node that was not seen before. -/
structure First (seen : NodeId → Prop) (root : Expr) (path : List Nat) (node : Expr) : Prop where
  here : root.at? path = some node
  unseen : ¬ seen node.id
  earlier : ∀ before other, before < path → root.at? before = some other → other.id ≠ node.id

/-- A path leads to the first occurrence of a node. -/
abbrev FirstAt (root : Expr) (path : List Nat) (node : Expr) : Prop :=
  First (fun _ => False) root path node

/-- The identities that a walk over some expressions has seen when it comes to one of them. -/
def SeenBefore (seen : NodeId → Prop) (exprs : List Expr) (step : Nat) (id : NodeId) : Prop :=
  seen id ∨ ∃ left < step, ∃ other, exprs[left]? = some other ∧ other.Mentions id

variable {root node other operand expr : Expr} {exprs : List Expr} {path rest : List Nat}
  {seen : NodeId → Prop} {step : Nat}

theorem at?_cons : root.at? (step :: path) = some node ↔
    ∃ operand, root.operands[step]? = some operand ∧ operand.at? path = some node :=
  Option.bind_eq_some_iff

theorem at?_append (here : root.at? path = some node) :
    root.at? (path ++ rest) = node.at? rest := by
  induction path generalizing root with
  | nil =>
      cases here
      rfl
  | cons step path ih =>
      obtain ⟨operand, listed, there⟩ := at?_cons.mp here
      rw [List.cons_append, at?, listed, Option.bind_some, ih there]

namespace Contains

theorem refl (root : Expr) : root.Contains root := ⟨[], rfl⟩

theorem trans (outer : root.Contains node) (inner : node.Contains other) : root.Contains other := by
  obtain ⟨path, here⟩ := outer
  obtain ⟨rest, there⟩ := inner
  exact ⟨path ++ rest, (at?_append here).trans there⟩

theorem of_operand (listed : root.operands[step]? = some operand) : root.Contains operand :=
  ⟨[step], by rw [at?, listed]; rfl⟩

end Contains

/-- What occurs in an expression is the expression itself, or occurs in an operand. -/
theorem contains_iff : root.Contains node ↔
    node = root ∨ ∃ operand ∈ root.operands, operand.Contains node := by
  constructor
  · rintro ⟨path, here⟩
    cases path with
    | nil => exact .inl (Option.some.inj here).symm
    | cons step path =>
        obtain ⟨operand, listed, there⟩ := at?_cons.mp here
        exact .inr ⟨operand, List.mem_of_getElem? listed, path, there⟩
  · rintro (rfl | ⟨operand, member, inside⟩)
    · exact .refl node
    · obtain ⟨step, listed⟩ := List.mem_iff_getElem?.mp member
      exact (Contains.of_operand listed).trans inside

theorem mentions_iff {id : NodeId} : root.Mentions id ↔
    id = root.id ∨ ∃ operand ∈ root.operands, operand.Mentions id := by
  constructor
  · rintro ⟨node, contains, rfl⟩
    rcases contains_iff.mp contains with rfl | ⟨operand, member, inside⟩
    · exact .inl rfl
    · exact .inr ⟨operand, member, node, inside, rfl⟩
  · rintro (rfl | ⟨operand, member, node, inside, rfl⟩)
    · exact ⟨root, .refl root, rfl⟩
    · exact ⟨node, contains_iff.mpr (.inr ⟨operand, member, inside⟩), rfl⟩

theorem Contains.sizeOf_le (contains : root.Contains node) : sizeOf node ≤ sizeOf root := by
  induction root using operands_induction with
  | step root ih =>
      rcases contains_iff.mp contains with rfl | ⟨operand, member, inside⟩
      · exact Nat.le_refl _
      · have below := ih operand member inside
        exact Nat.le_of_lt (Nat.lt_of_le_of_lt below (sizeOf_operand_lt member))

/-- In a graph the identity of a node does not occur below it. -/
theorem IsGraph.id_ne (graph : root.IsGraph) (outer : root.Contains node)
    (listed : node.operands[step]? = some operand) (inside : operand.Contains other) :
    other.id ≠ node.id := by
  intro same
  have below := (outer.trans (.of_operand listed)).trans inside
  cases graph other node below outer same
  have lt := sizeOf_operand_lt (List.mem_of_getElem? listed)
  exact absurd inside.sizeOf_le (Nat.not_le.mpr lt)

/-! ## First occurrences -/

namespace SeenBefore

theorem zero : SeenBefore seen exprs 0 = seen := by
  funext id
  simp [SeenBefore]

theorem succ : SeenBefore seen (expr :: exprs) (step + 1) =
    SeenBefore (fun id => seen id ∨ expr.Mentions id) exprs step := by
  funext id
  apply propext
  constructor
  · rintro (old | ⟨left, less, other, listed, mentions⟩)
    · exact .inl (.inl old)
    · cases left with
      | zero =>
          cases listed
          exact .inl (.inr mentions)
      | succ left => exact .inr ⟨left, Nat.lt_of_succ_lt_succ less, other, listed, mentions⟩
  · rintro ((old | mentions) | ⟨left, less, other, listed, mentions⟩)
    · exact .inl old
    · exact .inr ⟨0, Nat.zero_lt_succ step, expr, rfl, mentions⟩
    · exact .inr ⟨left + 1, Nat.succ_lt_succ less, other, listed, mentions⟩

end SeenBefore

namespace First

theorem root_iff : First seen root [] node ↔ root = node ∧ ¬ seen node.id := by
  constructor
  · intro first
    exact ⟨Option.some.inj first.here, first.unseen⟩
  · rintro ⟨rfl, unseen⟩
    exact ⟨rfl, unseen, fun before other lt => absurd lt (List.not_lt_nil before)⟩

/-- A first occurrence below a node is one below an operand, for a walk that has seen the node
itself and what is further to the left. -/
theorem cons_iff (listed : root.operands[step]? = some operand) :
    First seen root (step :: path) node ↔
      First (SeenBefore (fun id => id = root.id ∨ seen id) root.operands step) operand path
        node := by
  constructor
  · intro first
    obtain ⟨operand', listed', there⟩ := at?_cons.mp first.here
    obtain rfl := Option.some.inj (listed.symm.trans listed')
    refine ⟨there, ?_, fun earlier other lt occurs => ?_⟩
    · rintro ((same | old) | ⟨left, lt, other, beside, inner, ⟨rest, occurs⟩, same⟩)
      · exact first.earlier [] root (List.nil_lt_cons step path) rfl same.symm
      · exact first.unseen old
      · exact first.earlier (left :: rest) inner (List.cons_lt_cons_iff.mpr (.inl lt))
          (at?_cons.mpr ⟨other, beside, occurs⟩) same
    · exact first.earlier (step :: earlier) other (List.cons_lt_cons_iff.mpr (.inr ⟨rfl, lt⟩))
        (at?_cons.mpr ⟨operand, listed, occurs⟩)
  · intro first
    refine ⟨at?_cons.mpr ⟨operand, listed, first.here⟩, fun old => first.unseen (.inl (.inr old)),
      fun earlier other lt occurs same => ?_⟩
    cases earlier with
    | nil =>
        cases occurs
        exact first.unseen (.inl (.inl same.symm))
    | cons left rest =>
        obtain ⟨beside, listed', there⟩ := at?_cons.mp occurs
        rcases List.cons_lt_cons_iff.mp lt with less | ⟨rfl, less⟩
        · exact first.unseen (.inr ⟨left, less, beside, listed', other, ⟨rest, there⟩, same⟩)
        · obtain rfl := Option.some.inj (listed.symm.trans listed')
          exact first.earlier rest other less there same

/-- An identity has one first occurrence. -/
theorem unique {first second : List Nat} (one : First seen root first node)
    (two : First seen root second other) (same : node.id = other.id) : first = second := by
  rcases lt_trichotomy first second with less | equal | greater
  · exact absurd same (two.earlier first node less one.here)
  · exact equal
  · exact absurd same.symm (one.earlier second other greater two.here)

end First

/-- What occurs and was not seen before has a first occurrence: at the root, or in the leftmost
operand in which it occurs. -/
theorem exists_first {id : NodeId} (mentions : root.Mentions id) (unseen : ¬ seen id) :
    ∃ path node, First seen root path node ∧ node.id = id := by
  induction root using operands_induction generalizing seen with
  | step root ih =>
      by_cases here : root.id = id
      · exact ⟨[], root, First.root_iff.mpr ⟨rfl, here ▸ unseen⟩, here⟩
      · have below : ∃ (step : Nat) (operand : Expr), root.operands[step]? = some operand ∧
            operand.Mentions id := by
          obtain ⟨node, contains, same⟩ := mentions
          rcases contains_iff.mp contains with rfl | ⟨operand, member, inside⟩
          · exact absurd same here
          · obtain ⟨step, listed⟩ := List.mem_iff_getElem?.mp member
            exact ⟨step, operand, listed, node, inside, same⟩
        classical
        obtain ⟨operand, listed, inside⟩ := Nat.find_spec below
        have missed : ¬ SeenBefore (fun id => id = root.id ∨ seen id) root.operands
            (Nat.find below) id := by
          rintro ((same | old) | ⟨left, less, other, beside, mentioned⟩)
          · exact here same.symm
          · exact unseen old
          · exact Nat.find_min below less ⟨other, beside, mentioned⟩
        obtain ⟨path, node, first, same⟩ :=
          ih operand (List.mem_of_getElem? listed) inside missed
        exact ⟨_, node, (First.cons_iff listed).mpr first, same⟩

/-- Every node of a graph has a first occurrence. -/
theorem IsGraph.exists_firstAt (graph : root.IsGraph) (contains : root.Contains node) :
    ∃ path, root.FirstAt path node := by
  have found : ∃ path twin, root.FirstAt path twin ∧ twin.id = node.id :=
    exists_first ⟨node, contains, rfl⟩ not_false
  obtain ⟨path, twin, first, same⟩ := found
  obtain rfl := graph twin node ⟨path, first.here⟩ contains same
  exact ⟨path, first⟩

end Expr

end AffineKernel
