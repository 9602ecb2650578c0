import Mathlib.Algebra.GroupWithZero.Nat
import Mathlib.Data.List.Forall2
import AffineKernel.Build.Drawing
import AffineKernel.Proofs.Build.Occurrences
import AffineKernel.Proofs.Build.Pool

/-!
# What a drawing shows

An entry of a drawing has a path, as a node of an expression has one
(`Drawing.at?`), and the lines of a drawing are its entries in the order of their
paths (`Drawing.lines_entries`, `Drawing.pairwise_entries`).

Which entries are full is decided during the walk, from the list of the nodes
drawn so far. The list leaves no trace in the result: an entry is full exactly at
the first occurrence of its node (`Drawing.Shows`). When the walk comes to an
operand, it has drawn what occurs in the operands further to the left, and what
it has drawn it has drawn with all that is below (`Expr.Settled`). So there is no
first occurrence below a reference.

Each full entry has an entry below it for each operand and a reference has none.
So the number of entries is one more than the number of all operands of the
nodes of the graph, however often they occur (`Expr.drawing_depicts`).
-/

set_option autoImplicit false

namespace AffineKernel

namespace Drawing

/-! ## Entries -/

/-- The text of the first entry. -/
def text : Drawing → String
  | .entry text _ => text

/-- The drawings below the first entry. -/
def children : Drawing → List Drawing
  | .entry _ children => children

/-- The drawing at a path. -/
def at? : Drawing → List Nat → Option Drawing
  | drawing, [] => some drawing
  | drawing, step :: path => drawing.children[step]?.bind fun child => child.at? path

mutual

/-- The entries of a drawing from top to bottom, each as the drawing below it, with their paths. -/
def entries : Drawing → List (List Nat × Drawing)
  | .entry text children => ([], .entry text children) :: entriesFrom 0 children

/-- The entries of drawings side by side, numbered from `position` on. -/
def entriesFrom (position : Nat) : List Drawing → List (List Nat × Drawing)
  | [] => []
  | child :: rest =>
    child.entries.map (fun entry => (position :: entry.1, entry.2)) ++
      entriesFrom (position + 1) rest

end

/-- Only branches and the room between them. -/
def IsBranches (text : String) : Prop := ∀ char ∈ text.toList, char ∈ ['├', '─', '└', '│', ' ']

/-- A line has branches and then the text of an entry. -/
def Writes (line : String) (entry : List Nat × Drawing) : Prop :=
  ∃ branches, IsBranches branches ∧ line = branches ++ entry.2.text

variable {drawing shown : Drawing} {path : List Nat} {step : Nat}

theorem at?_cons : drawing.at? (step :: path) = some shown ↔
    ∃ child, drawing.children[step]? = some child ∧ child.at? path = some shown :=
  Option.bind_eq_some_iff

theorem at?_concat : drawing.at? (path ++ [step]) = some shown ↔
    ∃ above, drawing.at? path = some above ∧ above.children[step]? = some shown := by
  induction path generalizing drawing with
  | nil => simp [at?]
  | cons first path ih =>
      simp only [List.cons_append, at?_cons, ih]
      constructor
      · rintro ⟨child, listed, above, here, below⟩
        exact ⟨above, ⟨child, listed, here⟩, below⟩
      · rintro ⟨above, ⟨child, listed, here⟩, below⟩
        exact ⟨child, listed, above, here, below⟩

mutual

theorem mem_entries : ∀ (drawing : Drawing) {path : List Nat} {shown : Drawing},
    (path, shown) ∈ drawing.entries ↔ drawing.at? path = some shown
  | .entry text children, path, shown => by
      cases path with
      | nil =>
          rw [entries, List.mem_cons]
          refine ⟨?_, fun here => .inl (congrArg (Prod.mk []) (Option.some.inj here).symm)⟩
          rintro (same | below)
          · cases same
            rfl
          · obtain ⟨step, rest, child, empty, -⟩ := (mem_entriesFrom children).mp below
            cases empty
      | cons step rest => simp [entries, mem_entriesFrom children, at?_cons, Drawing.children]

theorem mem_entriesFrom : ∀ (children : List Drawing) {position : Nat} {path : List Nat}
    {shown : Drawing}, (path, shown) ∈ entriesFrom position children ↔
      ∃ step rest child, path = (position + step) :: rest ∧ children[step]? = some child ∧
        child.at? rest = some shown
  | [], position, path, shown => by simp [entriesFrom]
  | first :: others, position, path, shown => by
      rw [entriesFrom, List.mem_append, mem_entriesFrom others]
      constructor
      · rintro (here | ⟨step, rest, child, rfl, listed, inside⟩)
        · obtain ⟨⟨rest, inner⟩, member, same⟩ := List.mem_map.mp here
          cases same
          exact ⟨0, rest, first, rfl, rfl, (mem_entries first).mp member⟩
        · exact ⟨step + 1, rest, child, by rw [Nat.add_right_comm, Nat.add_assoc], listed, inside⟩
      · rintro ⟨step, rest, child, rfl, listed, inside⟩
        cases step with
        | zero =>
            cases listed
            exact .inl (List.mem_map.mpr ⟨(rest, shown), (mem_entries first).mpr inside, rfl⟩)
        | succ step =>
            exact .inr ⟨step, rest, child, by rw [Nat.add_right_comm, Nat.add_assoc], listed,
              inside⟩

end

mutual

/-- The entries are listed in the order of their paths. -/
theorem pairwise_entries : ∀ drawing : Drawing,
    drawing.entries.Pairwise fun first second => first.1 < second.1
  | .entry text children => by
      refine List.pairwise_cons.mpr ⟨?_, pairwise_entriesFrom children 0⟩
      rintro ⟨path, shown⟩ member
      obtain ⟨step, rest, child, rfl, -⟩ := (mem_entriesFrom children).mp member
      exact List.nil_lt_cons _ _

theorem pairwise_entriesFrom : ∀ (children : List Drawing) (position : Nat),
    (entriesFrom position children).Pairwise fun first second => first.1 < second.1
  | [], position => .nil
  | child :: rest, position => by
      refine List.pairwise_append.mpr ⟨?_, pairwise_entriesFrom rest (position + 1), ?_⟩
      · refine List.pairwise_map.mpr ((pairwise_entries child).imp fun less => ?_)
        exact List.cons_lt_cons_iff.mpr (.inr ⟨rfl, less⟩)
      · rintro first member ⟨path, shown⟩ later
        obtain ⟨inner, -, rfl⟩ := List.mem_map.mp member
        obtain ⟨step, rest, child, rfl, -⟩ := (mem_entriesFrom _).mp later
        exact List.cons_lt_cons_iff.mpr (.inl (by omega))

end

theorem IsBranches.append {text more : String} (left : IsBranches text) (right : IsBranches more) :
    IsBranches (text ++ more) := by
  intro char member
  rw [String.toList_append, List.mem_append] at member
  exact member.elim (left char) (right char)

theorem writes_below {lines : List String} {entries : List (List Nat × Drawing)}
    (writes : List.Forall₂ Writes lines entries) : List.Forall₂ Writes lines
      (entries.map fun entry => (step :: entry.1, entry.2)) :=
  List.forall₂_map_right_iff.mpr writes

mutual

/-- The lines of a drawing are its entries, behind branches. -/
theorem lines_entries : ∀ (drawing : Drawing) {first rest : String}, IsBranches first →
    IsBranches rest → List.Forall₂ Writes (drawing.lines first rest) drawing.entries
  | .entry _ children, first, _, own, below =>
      .cons ⟨first, own, rfl⟩ (childLines_entries children 0 below)

theorem childLines_entries : ∀ (children : List Drawing) (position : Nat) {rest : String},
    IsBranches rest → List.Forall₂ Writes (childLines rest children) (entriesFrom position children)
  | [], position, rest, below => .nil
  | [child], position, rest, below => by
      rw [childLines, entriesFrom, entriesFrom, List.append_nil]
      exact writes_below (lines_entries child (below.append (by simp [IsBranches]))
        (below.append (by simp [IsBranches])))
  | child :: next :: others, position, rest, below => by
      rw [childLines, entriesFrom]
      exact List.rel_append
        (writes_below (lines_entries child (below.append (by simp [IsBranches]))
          (below.append (by simp [IsBranches]))))
        (childLines_entries (next :: others) (position + 1) below)

end

mutual

/-- Every entry but the first one is directly below another one. -/
theorem length_entries : ∀ drawing : Drawing, drawing.entries.length =
    1 + (drawing.entries.map fun entry => entry.2.children.length).sum
  | .entry text children => by
      have below := length_entriesFrom children 0
      simp only [entries, List.length_cons, List.map_cons, List.sum_cons, Drawing.children, below]
      omega

theorem length_entriesFrom : ∀ (children : List Drawing) (position : Nat),
    (entriesFrom position children).length = children.length +
      ((entriesFrom position children).map fun entry => entry.2.children.length).sum
  | [], position => rfl
  | child :: rest, position => by
      have first := length_entries child
      have others := length_entriesFrom rest (position + 1)
      simp only [entriesFrom, List.length_append, List.length_map, List.map_append, List.map_map,
        List.sum_append, List.length_cons, Function.comp_def]
      omega

end

end Drawing

namespace Expr

/-! ## The walk -/

theorem drawArgs_eq : ∀ args : List CallArg, drawArgs args = drawAll (CallArg.exprs args)
  | [] => rfl
  | .tensor _ :: rest => by rw [drawArgs, CallArg.exprs, drawArgs_eq rest]
  | .expr value :: rest => by rw [drawArgs, CallArg.exprs, drawAll, drawArgs_eq rest]

/-- Every node draws its operands from left to right. -/
theorem draw_eq (expr : Expr) : expr.draw = drawOnce expr (drawAll expr.operands) := by
  cases expr with
  | call id dtype callee args => rw [draw, operands, drawArgs_eq]
  | _ => simp [draw, operands, drawAll]

variable {root node top other operand expr : Expr} {path : List Nat} {seen : NodeId → Prop}
  {drawn : List NodeId} {exprs : List Expr}

theorem draw_run_old (old : expr.id ∈ drawn) :
    expr.draw.run drawn = (.entry (referenceText expr.id) [], drawn) := by
  rw [draw_eq]
  exact congrFun (if_pos old) drawn

theorem draw_run_new (new : expr.id ∉ drawn) :
    expr.draw.run drawn =
      (.entry expr.entryText ((drawAll expr.operands).run (expr.id :: drawn)).1,
        ((drawAll expr.operands).run (expr.id :: drawn)).2) := by
  rw [draw_eq]
  exact congrFun (if_neg new) drawn

theorem drawAll_run_cons :
    (drawAll (expr :: exprs)).run drawn =
      ((expr.draw.run drawn).1 :: ((drawAll exprs).run (expr.draw.run drawn).2).1,
        ((drawAll exprs).run (expr.draw.run drawn).2).2) := rfl

/-- A label does not begin with an arrow. -/
theorem label_append_ne (expr : Expr) (rest : String) : expr.label ++ rest ≠ "→ (see above)" := by
  intro same
  have first := congrArg (fun text => text.toList.head?) same
  cases expr with
  | unary id dtype kind operand => cases kind <;> simp [label, UnaryKind.label] at first
  | binary id dtype kind lhs rhs => cases kind <;> simp [label, BinaryKind.label] at first
  | _ => simp [label] at first

theorem entryText_eq (expr : Expr) :
    ∃ rest, expr.entryText = "[" ++ expr.id.repr ++ "] " ++ (expr.label ++ rest) := by
  cases typed : expr.dtype? with
  | none => exact ⟨"", by rw [entryText, typed, String.append_empty]⟩
  | some dtype => exact ⟨" : " ++ dtype.text, by simp only [entryText, typed, String.append_assoc]⟩

/-- A full entry cannot be read as a reference. -/
theorem entryText_ne (expr : Expr) : expr.entryText ≠ referenceText expr.id := by
  obtain ⟨rest, entry⟩ := entryText_eq expr
  have reference : referenceText expr.id = "[" ++ expr.id.repr ++ "] " ++ "→ (see above)" := by
    simp only [referenceText, String.append_assoc]
    rfl
  rw [entry, reference, Ne, String.append_right_inj]
  exact label_append_ne expr rest

/-- What is below a node that was seen before was seen before, too. -/
def Settled (seen : NodeId → Prop) (root : Expr) : Prop :=
  ∀ node, root.Contains node → seen node.id → ∀ other, node.Contains other → seen other.id

namespace Settled

theorem of_root (settled : Settled seen root) (old : seen root.id)
    (contains : root.Contains node) : seen node.id := settled root (.refl root) old node contains

/-- A new node does not occur below its operands, so that nothing has to be known of it there. -/
theorem below (settled : Settled seen root) (graph : top.IsGraph) (inside : top.Contains root)
    (member : operand ∈ root.operands) :
    Settled (fun id => id = root.id ∨ seen id) operand := by
  obtain ⟨step, listed⟩ := List.mem_iff_getElem?.mp member
  rintro node contains (same | old) other beneath
  · exact absurd same (graph.id_ne inside listed contains)
  · exact .inr (settled node ((Contains.of_operand listed).trans contains) old other beneath)

/-- What another expression mentions it mentions with all that is below. -/
theorem beside (settled : Settled seen root) (graph : top.IsGraph) (inside : top.Contains root)
    (within : top.Contains other) : Settled (fun id => seen id ∨ other.Mentions id) root := by
  rintro node contains (old | ⟨twin, drawn, same⟩) below beneath
  · exact .inl (settled node contains old below beneath)
  · obtain rfl := graph twin node (within.trans drawn) (inside.trans contains) same
    exact .inr ⟨below, drawn.trans beneath, rfl⟩

end Settled

end Expr

namespace Drawing

open AffineKernel.Expr

/-- The entry of a node in full, with an entry below it for each operand. -/
def IsFull (shown : Drawing) (node : Expr) : Prop :=
  shown.text = node.entryText ∧ shown.children.length = node.operands.length

/-- An entry that refers back to a node, with nothing below it. -/
def IsReference (shown : Drawing) (node : Expr) : Prop :=
  shown = .entry ("[" ++ node.id.repr ++ "] → (see above)") []

/-- A drawing shows what a walk finds in an expression if it has seen some nodes before. Its
entries are full at first occurrences and references elsewhere, and no first occurrence is left
out. -/
structure Shows (drawing : Drawing) (seen : NodeId → Prop) (root : Expr) : Prop where
  sound : ∀ path shown, drawing.at? path = some shown → ∃ node, root.at? path = some node ∧
    (First seen root path node ∧ shown.IsFull node ∨
      ¬ First seen root path node ∧ shown.IsReference node)
  complete : ∀ path node, First seen root path node → ∃ shown, drawing.at? path = some shown

variable {shown : Drawing} {children : List Drawing} {root : Expr} {seen : NodeId → Prop}

namespace Shows

theorem reference (old : ∀ node, root.Contains node → seen node.id) :
    (Drawing.entry (referenceText root.id) []).Shows seen root where
  sound path shown here := by
    cases path with
    | nil =>
        cases here
        exact ⟨root, rfl, .inr ⟨fun first => first.unseen (old root (.refl root)), rfl⟩⟩
    | cons step path =>
        obtain ⟨child, listed, -⟩ := Drawing.at?_cons.mp here
        cases listed
  complete path node first := absurd (old node ⟨path, first.here⟩) first.unseen

theorem full (new : ¬ seen root.id) (length : children.length = root.operands.length)
    (below : ∀ (step : Nat) child operand, children[step]? = some child →
      root.operands[step]? = some operand →
        child.Shows (SeenBefore (fun id => id = root.id ∨ seen id) root.operands step) operand) :
    (Drawing.entry root.entryText children).Shows seen root where
  sound path shown here := by
    cases path with
    | nil =>
        cases here
        exact ⟨root, rfl, .inl ⟨First.root_iff.mpr ⟨rfl, new⟩, rfl, length⟩⟩
    | cons step path =>
        obtain ⟨child, drawn, inside⟩ := Drawing.at?_cons.mp here
        have bound : step < root.operands.length := length ▸ (List.getElem?_eq_some_iff.mp drawn).1
        have listed := List.getElem?_eq_getElem bound
        obtain ⟨node, there, shows⟩ := (below step child _ drawn listed).sound path shown inside
        exact ⟨node, Expr.at?_cons.mpr ⟨_, listed, there⟩, by rwa [First.cons_iff listed]⟩
  complete path node first := by
    cases path with
    | nil => exact ⟨_, rfl⟩
    | cons step path =>
        obtain ⟨operand, listed, -⟩ := Expr.at?_cons.mp first.here
        have bound : step < children.length := length ▸ (List.getElem?_eq_some_iff.mp listed).1
        have drawn := List.getElem?_eq_getElem bound
        obtain ⟨shown, inside⟩ :=
          (below step _ operand drawn listed).complete path node ((First.cons_iff listed).mp first)
        exact ⟨shown, Drawing.at?_cons.mpr ⟨_, drawn, inside⟩⟩

end Shows

/-- What drawing an expression comes to, given the nodes drawn so far. -/
structure Draws (drawn : List NodeId) (expr : Expr) : Prop where
  shows : (expr.draw.run drawn).1.Shows (· ∈ drawn) expr
  after : ∀ id, id ∈ (expr.draw.run drawn).2 ↔ id ∈ drawn ∨ expr.Mentions id

/-- What drawing expressions side by side comes to. -/
structure DrawsAll (drawn : List NodeId) (exprs : List Expr) : Prop where
  length : ((drawAll exprs).run drawn).1.length = exprs.length
  shows : ∀ (step : Nat) child expr, ((drawAll exprs).run drawn).1[step]? = some child →
    exprs[step]? = some expr → child.Shows (SeenBefore (· ∈ drawn) exprs step) expr
  after : ∀ id, id ∈ ((drawAll exprs).run drawn).2 ↔
    id ∈ drawn ∨ ∃ expr ∈ exprs, expr.Mentions id

variable {top expr : Expr} {drawn : List NodeId} {exprs : List Expr}

/-- What was drawn is settled for each expression when the walk comes to it, since an expression
further to the left was drawn with all that is below it. -/
theorem drawAll_draws (graph : top.IsGraph) (inside : ∀ expr ∈ exprs, top.Contains expr)
    (draws : ∀ expr ∈ exprs, ∀ drawn, Settled (· ∈ drawn) expr → Draws drawn expr)
    (settled : ∀ expr ∈ exprs, Settled (· ∈ drawn) expr) : DrawsAll drawn exprs := by
  induction exprs generalizing drawn with
  | nil =>
      refine ⟨rfl, by simp, fun id => ⟨.inl, ?_⟩⟩
      rintro (old | ⟨expr, member, -⟩)
      · exact old
      · cases member
  | cons expr exprs ih =>
      have here : Draws drawn expr :=
        draws expr List.mem_cons_self drawn (settled expr List.mem_cons_self)
      have seen : (· ∈ (expr.draw.run drawn).2) = fun id => id ∈ drawn ∨ expr.Mentions id :=
        funext fun id => propext (here.after id)
      have later : DrawsAll (expr.draw.run drawn).2 exprs := by
        refine ih (fun next member => inside next (List.mem_cons_of_mem expr member))
          (fun next member => draws next (List.mem_cons_of_mem expr member)) fun next member => ?_
        rw [seen]
        exact (settled next (List.mem_cons_of_mem expr member)).beside graph
          (inside next (List.mem_cons_of_mem expr member)) (inside expr List.mem_cons_self)
      refine ⟨congrArg (· + 1) later.length, fun step child next drawing listed => ?_, fun id => ?_⟩
      · cases step with
        | zero =>
            cases drawing
            cases listed
            rw [SeenBefore.zero]
            exact here.shows
        | succ step =>
            rw [SeenBefore.succ, ← seen]
            exact later.shows step child next drawing listed
      · rw [drawAll_run_cons, later.after, here.after]
        simp only [List.mem_cons, exists_eq_or_imp, or_assoc]

/-- Drawing a node of a graph shows it. The induction is on the node: its operands are drawn after
the node itself, and this keeps them settled. -/
theorem draw_draws (graph : top.IsGraph) (expr : Expr) (inside : top.Contains expr)
    (settled : Settled (· ∈ drawn) expr) : Draws drawn expr := by
  induction expr using operands_induction generalizing drawn with
  | step expr ih =>
      by_cases old : expr.id ∈ drawn
      · refine ⟨?_, fun id => ?_⟩
        · rw [draw_run_old old]
          exact .reference fun node contains => settled.of_root old contains
        · rw [draw_run_old old]
          refine ⟨.inl, ?_⟩
          rintro (drawn | ⟨node, contains, rfl⟩)
          · exact drawn
          · exact settled.of_root old contains
      · have seen : (· ∈ expr.id :: drawn) = fun id => id = expr.id ∨ id ∈ drawn :=
          funext fun id => propext List.mem_cons
        have within : ∀ operand ∈ expr.operands, top.Contains operand := fun operand member =>
          inside.trans (contains_iff.mpr (.inr ⟨operand, member, .refl operand⟩))
        have below : DrawsAll (expr.id :: drawn) expr.operands := by
          refine drawAll_draws graph within
            (fun operand member drawn => ih operand member (within operand member))
            fun operand member => ?_
          rw [seen]
          exact settled.below graph inside member
        refine ⟨?_, fun id => ?_⟩
        · rw [draw_run_new old]
          refine .full old below.length fun step child operand drawing listed => ?_
          rw [← seen]
          exact below.shows step child operand drawing listed
        · rw [draw_run_new old, below.after, List.mem_cons, mentions_iff, or_assoc, or_left_comm]

/-! ## The drawing -/

theorem IsReference.not_isFull {node : Expr} (reference : shown.IsReference node) :
    ¬ shown.IsFull node := by
  rintro ⟨text, -⟩
  cases reference
  exact entryText_ne node text.symm

namespace Shows

variable {drawing : Drawing} {path : List Nat} {node : Expr}

theorem isFull_iff (shows : drawing.Shows seen root) (here : drawing.at? path = some shown)
    (there : root.at? path = some node) : shown.IsFull node ↔ First seen root path node := by
  obtain ⟨other, found, ⟨first, full⟩ | ⟨later, reference⟩⟩ := shows.sound path shown here
  all_goals obtain rfl := Option.some.inj (there.symm.trans found)
  · exact iff_of_true full first
  · exact iff_of_false reference.not_isFull later

theorem isReference_iff (shows : drawing.Shows seen root) (here : drawing.at? path = some shown)
    (there : root.at? path = some node) :
    shown.IsReference node ↔ ¬ First seen root path node := by
  obtain ⟨other, found, ⟨first, full⟩ | ⟨later, reference⟩⟩ := shows.sound path shown here
  all_goals obtain rfl := Option.some.inj (there.symm.trans found)
  · exact iff_of_false (fun reference => reference.not_isFull full) (not_not.mpr first)
  · exact iff_of_true reference later

/-- What is drawn is the root, and what is directly below a first occurrence. -/
theorem drawn_iff (shows : drawing.Shows seen root) : (∃ shown, drawing.at? path = some shown) ↔
    path = [] ∨ ∃ above node step, path = above ++ [step] ∧ First seen root above node ∧
      step < node.operands.length := by
  constructor
  · rintro ⟨shown, here⟩
    rcases List.eq_nil_or_concat' path with rfl | ⟨above, step, rfl⟩
    · exact .inl rfl
    · obtain ⟨outer, there, listed⟩ := at?_concat.mp here
      obtain ⟨node, -, ⟨first, full⟩ | ⟨-, reference⟩⟩ := shows.sound above outer there
      · have bound := (List.getElem?_eq_some_iff.mp listed).1
        exact .inr ⟨above, node, step, rfl, first, full.2 ▸ bound⟩
      · cases reference
        cases listed
  · rintro (rfl | ⟨above, node, step, rfl, first, bound⟩)
    · exact ⟨drawing, rfl⟩
    · obtain ⟨outer, there⟩ := shows.complete above node first
      have full := (shows.isFull_iff there first.here).mpr first
      have listed := List.getElem?_eq_getElem (full.2.symm ▸ bound)
      exact ⟨_, at?_concat.mpr ⟨outer, there, listed⟩⟩

/-- The full ones among some entries, with what is directly below them. -/
theorem exists_full {entries : List (List Nat × Drawing)} (shows : drawing.Shows seen root)
    (sorted : entries.Pairwise fun first second => first.1 < second.1)
    (drawn : ∀ entry ∈ entries, drawing.at? entry.1 = some entry.2) :
    ∃ nodes : List Expr, nodes.Nodup ∧
      (∀ node, node ∈ nodes ↔ ∃ entry ∈ entries, First seen root entry.1 node) ∧
      (entries.map fun entry => entry.2.children.length).sum =
        (nodes.map fun node => node.operands.length).sum := by
  induction entries with
  | nil => exact ⟨[], .nil, by simp, rfl⟩
  | cons entry entries ih =>
      obtain ⟨before, sorted⟩ := List.pairwise_cons.mp sorted
      obtain ⟨here, drawn⟩ := List.forall_mem_cons.mp drawn
      obtain ⟨nodes, distinct, listed, sum⟩ := ih sorted drawn
      obtain ⟨node, there, ⟨first, full⟩ | ⟨later, reference⟩⟩ := shows.sound _ _ here
      · have new : node ∉ nodes := by
          intro member
          obtain ⟨other, later, again⟩ := (listed node).mp member
          have less := before other later
          rw [first.unique again rfl] at less
          exact lt_irrefl _ less
        refine ⟨node :: nodes, List.nodup_cons.mpr ⟨new, distinct⟩, fun other => ?_, ?_⟩
        · rw [List.mem_cons, listed, List.exists_mem_cons_iff]
          refine or_congr_left ⟨?_, fun again => Option.some.inj (again.here.symm.trans there)⟩
          rintro rfl
          exact first
        · rw [List.map_cons, List.sum_cons, List.map_cons, List.sum_cons, sum, full.2]
      · refine ⟨nodes, distinct, fun other => ?_, ?_⟩
        · rw [listed, List.exists_mem_cons_iff]
          refine (or_iff_right fun first => later ?_).symm
          rwa [Option.some.inj (there.symm.trans first.here)]
        · rw [List.map_cons, List.sum_cons, sum, reference]
          exact Nat.zero_add _

end Shows

/-- Entries that depict a graph. -/
structure Depicts (entries : List (List Nat × Drawing)) (root : Expr) : Prop where
  /-- The entries come depth first and from left to right. -/
  ordered : entries.Pairwise fun first second => first.1 < second.1
  /-- There is an entry for the root and one for each operand of a node, where the node occurs
  first. -/
  occurrences : ∀ path, (∃ shown, (path, shown) ∈ entries) ↔ path = [] ∨ ∃ above node step,
    path = above ++ [step] ∧ root.FirstAt above node ∧ step < node.operands.length
  /-- An entry is full where its node occurs first, and refers back everywhere else. -/
  entry : ∀ path shown, (path, shown) ∈ entries → ∃ node, root.at? path = some node ∧
    (shown.IsFull node ↔ root.FirstAt path node) ∧
      (shown.IsReference node ↔ ¬ root.FirstAt path node)
  /-- Every node has a full entry, and what refers back to the node comes later. -/
  full : ∀ node, root.Contains node → ∃ path shown, (path, shown) ∈ entries ∧
    root.FirstAt path node ∧ shown.IsFull node ∧
      ∀ later other, (later, other) ∈ entries → root.at? later = some node → later ≠ path →
        path < later ∧ other.IsReference node
  /-- The root and the operands of the nodes of the graph are all that is drawn. -/
  count : ∃ nodes : List Expr, nodes.Nodup ∧ (∀ node, node ∈ nodes ↔ root.Contains node) ∧
    entries.length = 1 + (nodes.map fun node => node.operands.length).sum

theorem Shows.depicts {drawing : Drawing} (shows : drawing.Shows (fun _ => False) root)
    (graph : root.IsGraph) : Depicts drawing.entries root where
  ordered := pairwise_entries drawing
  occurrences path := by simp only [mem_entries, shows.drawn_iff]
  entry path shown member := by
    have here := (mem_entries drawing).mp member
    obtain ⟨node, there, -⟩ := shows.sound path shown here
    exact ⟨node, there, shows.isFull_iff here there, shows.isReference_iff here there⟩
  full node contains := by
    obtain ⟨path, first⟩ := graph.exists_firstAt contains
    obtain ⟨shown, here⟩ := shows.complete path node first
    refine ⟨path, shown, (mem_entries drawing).mpr here, first,
      (shows.isFull_iff here first.here).mpr first, fun later other member there ne => ?_⟩
    have less : path < later := by
      rcases lt_trichotomy path later with less | equal | greater
      · exact less
      · exact absurd equal.symm ne
      · exact absurd rfl (first.earlier later node greater there)
    refine ⟨less, (shows.isReference_iff ((mem_entries drawing).mp member) there).mpr ?_⟩
    exact fun again => again.earlier path node less first.here rfl
  count := by
    obtain ⟨nodes, distinct, listed, sum⟩ := shows.exists_full (pairwise_entries drawing)
      fun entry member => (mem_entries drawing).mp member
    refine ⟨nodes, distinct, fun node => ?_, by rw [length_entries, sum]⟩
    rw [listed]
    constructor
    · rintro ⟨entry, -, first⟩
      exact ⟨entry.1, first.here⟩
    · intro contains
      obtain ⟨path, first⟩ := graph.exists_firstAt contains
      obtain ⟨shown, here⟩ := shows.complete path node first
      exact ⟨(path, shown), (mem_entries drawing).mpr here, first⟩

end Drawing

/-- What occurs in a node of a sound pool is in the pool. -/
theorem Pool.Sound.contains {pool : Pool} {next : NodeId} (sound : pool.Sound next)
    {root node : Expr} (member : pool.expr root) (contains : root.Contains node) :
    pool.expr node := by
  induction root using Expr.operands_induction with
  | step root ih =>
      rcases Expr.contains_iff.mp contains with rfl | ⟨operand, listed, inside⟩
      · exact member
      · exact ih operand listed ((sound.accepts member).operands operand listed) inside

/-- What the constructors make stands for a graph. -/
theorem Pool.Sound.isGraph {pool : Pool} {next : NodeId} (sound : pool.Sound next) {root : Expr}
    (member : pool.expr root) : root.IsGraph :=
  fun _ _ inside within => sound.unique (sound.contains member inside)
    (sound.contains member within)

namespace Expr

/-- An expression is drawn on lines that depict its graph. -/
theorem drawing_depicts {root : Expr} (graph : root.IsGraph) : ∃ lines,
    root.drawing.render = String.join (lines.map (· ++ "\n")) ∧
      List.Forall₂ Drawing.Writes lines root.drawing.entries ∧
        Drawing.Depicts root.drawing.entries root := by
  have unseen : (· ∈ ([] : List NodeId)) = fun _ => False :=
    funext fun id => propext (iff_false_intro List.not_mem_nil)
  have settled : Settled (· ∈ []) root := fun node _ drawn => absurd drawn List.not_mem_nil
  have shows := (Drawing.draw_draws graph root (.refl root) settled).shows
  rw [unseen] at shows
  have branches : Drawing.IsBranches "" := fun char member => absurd member List.not_mem_nil
  exact ⟨_, rfl, Drawing.lines_entries root.drawing branches branches, shows.depicts graph⟩

/-- A node that occurs three times in `diamond`. -/
def diamondLeaf : Expr := .constant 0 .int32 (.int 3)

/-- The square of a node. -/
def diamondSquare : Expr := .binary 1 .int32 .mul diamondLeaf diamondLeaf

/-- The sum of the square of a node and the node. -/
def diamond : Expr := .binary 2 .int32 .add diamondSquare diamondLeaf

theorem diamond_contains {node : Expr} (contains : diamond.Contains node) :
    node ∈ [diamond, diamondSquare, diamondLeaf] := by
  have leaf {node : Expr} (contains : diamondLeaf.Contains node) : node = diamondLeaf := by
    simpa [diamondLeaf, operands] using contains_iff.mp contains
  have square {node : Expr} (contains : diamondSquare.Contains node) :
      node = diamondSquare ∨ node = diamondLeaf := by
    rcases contains_iff.mp contains with same | ⟨operand, member, inside⟩
    · exact .inl same
    · obtain rfl : operand = diamondLeaf := by simpa [diamondSquare, operands] using member
      exact .inr (leaf inside)
  rcases contains_iff.mp contains with rfl | ⟨operand, member, inside⟩
  · exact List.mem_cons_self
  · obtain rfl | rfl : operand = diamondSquare ∨ operand = diamondLeaf := by
      simpa [diamond, operands] using member
    · exact List.mem_cons_of_mem _ (by simpa using square inside)
    · simp [leaf inside]

theorem diamond_drawing_depicts : diamond.IsGraph ∧ ∃ lines,
    diamond.drawing.render = String.join (lines.map (· ++ "\n")) ∧
      List.Forall₂ Drawing.Writes lines diamond.drawing.entries ∧
        Drawing.Depicts diamond.drawing.entries diamond := by
  have graph : diamond.IsGraph := by
    intro node other inside within same
    have first := diamond_contains inside
    have second := diamond_contains within
    simp only [List.mem_cons, List.not_mem_nil, or_false] at first second
    rcases first with rfl | rfl | rfl <;> rcases second with rfl | rfl | rfl <;>
      first | rfl | exact absurd same (by decide)
  exact ⟨graph, drawing_depicts graph⟩

/-- The leaf is drawn in full below the square, where it occurs first, and twice as a reference. -/
example : diamond.drawing.entries.map (fun entry => entry.2.text) =
    ["[2] ADD : int32", "[1] MUL : int32", "[0] CONST(3) : int32", "[0] → (see above)",
      "[0] → (see above)"] := rfl

end Expr

end AffineKernel
