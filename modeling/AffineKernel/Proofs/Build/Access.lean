import AffineKernel.Build.Materialize
import AffineKernel.Proofs.Build.Outcome

/-!
# Reading accesses

An access is read off the indices by `Extraction`. The loop variables that it
collects are nodes below the indices (`Extraction.access_stands`), the map has a
dimension for each of them and a result for each index
(`Extraction.access_shape`), and the operands of the access are the values that
these variables are bound to (`BuildM.affineAccess_reads`).
-/

set_option autoImplicit false

namespace AffineKernel

variable {nodes : Expr → Prop} {context : Context}

namespace Extraction

/-- A loop variable that stands for a node. -/
def Stands (nodes : Expr → Prop) (ref : LoopRef) : Prop :=
  ∃ expr, nodes expr ∧ expr.id = ref.id ∧ expr.loopName? = some ref.name

/-- A variable has the dimension of an earlier occurrence, or the next one. -/
theorem slot_cases {ref : LoopRef} {found refs : List LoopRef} {position : Nat}
    (slotted : slot ref found = .ok position refs) :
    (refs = found ∧ ∃ seen, found[position]? = some seen ∧ seen.id = ref.id) ∨
      (refs = found ++ [ref] ∧ position = found.length ∧ ∀ seen ∈ found, seen.id ≠ ref.id) := by
  rw [slot, EStateM.get_bind_apply] at slotted
  cases place : found.findIdx? (fun seen => decide (seen.id = ref.id)) with
  | some known =>
      rw [place] at slotted
      cases slotted
      obtain ⟨inside, same, -⟩ := List.findIdx?_eq_some_iff_getElem.mp place
      exact .inl ⟨rfl, _, List.getElem?_eq_getElem inside, of_decide_eq_true same⟩
  | none =>
      rw [place] at slotted
      cases slotted
      refine .inr ⟨rfl, rfl, fun seen member => ?_⟩
      exact of_decide_eq_false (List.findIdx?_eq_none_iff.mp place seen member)

/-- The dimension of a loop variable keeps the others. -/
theorem slot_stands {ref : LoopRef} {refs found : List LoopRef} {position : Nat}
    (stands : Stands nodes ref) (all : ∀ other ∈ refs, Stands nodes other)
    (passed : slot ref refs = .ok position found) : ∀ other ∈ found, Stands nodes other := by
  rcases slot_cases passed with ⟨rfl, -⟩ | ⟨rfl, -⟩
  · exact all
  · intro other member
    rcases List.mem_append.mp member with old | new
    · exact all other old
    · rw [List.mem_singleton.mp new]
      exact stands

/-- Two forms are joined by the affine form of the operator; the result is affine, and no divisor
is the literal zero. -/
theorem join_cases {kind : BinaryKind} {lhs rhs form : AffineExpr} {refs found : List LoopRef}
    (joined : join kind lhs rhs found = .ok form refs) :
    refs = found ∧ (∃ combine, operator? kind = some combine ∧ form = combine lhs rhs) ∧
      form.isPure = true ∧ (dividing kind = true → rhs ≠ .constant 0) := by
  unfold join at joined
  split at joined
  · cases joined
  · rename_i proper
    have nonzero : dividing kind = true → rhs ≠ .constant 0 := by
      intro divides zero
      exact proper (by simp [divides, zero])
    cases operates : operator? kind with
    | none =>
        rw [operates] at joined
        cases joined
    | some combine =>
        simp only [operates] at joined
        split at joined
        · rename_i pure
          cases joined
          exact ⟨rfl, ⟨combine, rfl, rfl⟩, pure, nonzero⟩
        · cases joined

section Nodes

variable (closed : ∀ {expr : Expr}, nodes expr → ∀ operand ∈ expr.operands, nodes operand)
include closed

/-- Reading an index collects loop variables below it. -/
theorem index_stands : ∀ (expr : Expr) {refs found : List LoopRef} {form : AffineExpr},
    nodes expr → (∀ ref ∈ refs, Stands nodes ref) → index expr refs = .ok form found → ∀ ref ∈ found, Stands nodes ref
  | .loopVar id name, refs, found, form, member, all, passed => by
      rw [index] at passed
      obtain ⟨position, middle, slotted, same⟩ := EStateM.bind_eq_ok passed
      cases same
      exact slot_stands ⟨_, member, rfl, rfl⟩ all slotted
  | .axis id name lower upper, refs, found, form, member, all, passed => by
      rw [index] at passed
      obtain ⟨position, middle, slotted, same⟩ := EStateM.bind_eq_ok passed
      cases same
      exact slot_stands ⟨_, member, rfl, rfl⟩ all slotted
  | .constant id dtype (.int value), refs, found, form, member, all, passed => by
      cases passed
      exact all
  | .constant id dtype (.float value), refs, found, form, member, all, passed => by cases passed
  | .cast id dtype source, refs, found, form, member, all, passed =>
      index_stands source (closed member source (by simp [Expr.operands])) all passed
  | .binary id dtype kind lhs rhs, refs, found, form, member, all, passed => by
      rw [index] at passed
      obtain ⟨left, first, leftRead, passed⟩ := EStateM.bind_eq_ok passed
      obtain ⟨right, second, rightRead, joined⟩ := EStateM.bind_eq_ok passed
      have allFirst := index_stands lhs
        (closed member lhs (by simp [Expr.operands])) all leftRead
      have allSecond := index_stands rhs
        (closed member rhs (by simp [Expr.operands])) allFirst rightRead
      exact (join_cases joined).1 ▸ allSecond
  | .unary .., _, _, _, _, _, passed | .compare .., _, _, _, _, _, passed
  | .load .., _, _, _, _, _, passed | .store .., _, _, _, _, _, passed
  | .select .., _, _, _, _, _, passed | .call .., _, _, _, _, _, passed
  | .getBit .., _, _, _, _, _, passed | .reduce .., _, _, _, _, _, passed => by cases passed

/-- Reading indices one after the other. -/
theorem indices_stand (exprs : List Expr) {refs found : List LoopRef} {forms : List AffineExpr}
    (members : ∀ expr ∈ exprs, nodes expr) (all : ∀ ref ∈ refs, Stands nodes ref) (passed : exprs.mapM index refs = .ok forms found) :
    ∀ ref ∈ found, Stands nodes ref := by
  induction exprs generalizing refs forms with
  | nil =>
      cases passed
      exact all
  | cons expr rest ih =>
      rw [List.mapM_cons] at passed
      obtain ⟨form, middle, read, passed⟩ := EStateM.bind_eq_ok passed
      obtain ⟨others, last, readRest, same⟩ := EStateM.bind_eq_ok passed
      cases same
      have allMiddle := index_stands closed expr (members expr (by simp)) all read
      exact ih (fun other member => members other (by simp [member])) allMiddle readRest

/-- The loop variables of an access are nodes below its indices, one for each dimension. -/
theorem access_stands {exprs : List Expr} {map : AffineMap} {refs : List LoopRef}
    (members : ∀ expr ∈ exprs, nodes expr)
    (passed : access exprs [] = .ok map refs) : ∀ ref ∈ refs, Stands nodes ref := by
  obtain ⟨_, start, begun, passed⟩ := EStateM.bind_eq_ok passed
  cases begun
  obtain ⟨forms, found, read, passed⟩ := EStateM.bind_eq_ok passed
  cases passed
  exact indices_stand closed exprs members (by simp) read

end Nodes

theorem indices_length (exprs : List Expr) {refs found : List LoopRef} {forms : List AffineExpr}
    (passed : exprs.mapM index refs = .ok forms found) : forms.length = exprs.length := by
  induction exprs generalizing refs forms with
  | nil =>
      cases passed
      rfl
  | cons expr rest ih =>
      rw [List.mapM_cons] at passed
      obtain ⟨form, middle, read, passed⟩ := EStateM.bind_eq_ok passed
      obtain ⟨others, last, readRest, same⟩ := EStateM.bind_eq_ok passed
      cases same
      simp [ih readRest]

/-- The map of an access has a dimension for each loop variable and a result for each index. -/
theorem access_shape {exprs : List Expr} {map : AffineMap} {refs : List LoopRef}
    (passed : access exprs [] = .ok map refs) :
    map.dims = refs.length ∧ map.symbols = 0 ∧ map.results.length = exprs.length := by
  obtain ⟨_, start, begun, passed⟩ := EStateM.bind_eq_ok passed
  cases begun
  obtain ⟨forms, found, read, passed⟩ := EStateM.bind_eq_ok passed
  cases passed
  exact ⟨rfl, rfl, indices_length exprs read⟩

end Extraction

/-- The value that a loop variable is bound to. -/
def Context.loopValue? (context : Context) (ref : LoopRef) : Option Value :=
  (context.binding? ref.id).bind Binding.value?

theorem Context.binding?_of_loopValue? {ref : LoopRef} {value : Value}
    (bound : context.loopValue? ref = some value) :
    context.binding? ref.id = some (.value value) := by
  unfold Context.loopValue? at bound
  cases found : context.binding? ref.id with
  | none =>
      rw [found] at bound
      cases bound
  | some binding =>
      rw [found] at bound
      cases binding with
      | op id => cases bound
      | value held =>
          cases bound
          rfl

namespace BuildM

theorem loopValues_bound (refs : List LoopRef) (context : Context) :
    Ensures (refs.mapM loopValue) context
      (fun values after => after = context ∧ refs.map context.loopValue? = values.map some)
      (fun after => after = context) := by
  induction refs with
  | nil => exact ⟨rfl, rfl⟩
  | cons ref refs ih =>
      simp only [List.mapM_cons, ensures_bind, loopValue, ensures_get]
      split
      · rename_i value bound
        simp only [ensures_pure]
        refine ih.mono ?_ fun _ same => same
        rintro values after ⟨rfl, others⟩
        exact ⟨rfl, by simp [Context.loopValue?, bound, others]⟩
      · exact rfl

/-- An access is read off its indices; its operands are the values of the loop variables. -/
theorem affineAccess_reads (indices : List Expr) (context : Context) :
    Ensures (affineAccess indices) context
      (fun made after => ∃ refs, Extraction.access indices [] = .ok made.1 refs ∧
        after = context.emit (.affineAccess refs.length indices.length) ∧
        refs.map context.loopValue? = made.2.map some)
      (fun after => after = context ∨ ∃ event, after = context.emit event) := by
  rw [affineAccess]
  cases read : Extraction.access indices [] with
  | error error refs => exact .inl rfl
  | ok map refs =>
      simp only [ensures_bind, ensures_emit, ensures_pure]
      refine (loopValues_bound refs _).mono ?_ fun _ same => .inr ⟨_, same⟩
      rintro values after ⟨rfl, bound⟩
      exact ⟨refs, rfl, rfl, bound⟩

end BuildM

end AffineKernel
