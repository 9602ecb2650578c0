import AffineKernel.Proofs.Affine.Indices
import AffineKernel.Proofs.Build.Success
import AffineKernel.Proofs.Simulation.Values

/-!
# The two readings of index expressions

An index expression is used in two ways. In an access it is read as an affine
form over the loop variables that occur in it, and the form is evaluated on
their words. Elsewhere it is built as a value, and the operations are executed.

Where the exact value of the expression exists both ways yield it
(`BuildM.index_readings_agree`). The affine form has it by
`Extraction.eval_index`; the built operations compute the meaning of the
expression, which is the exact value by `Expr.value_of_exactValue`. What is left is
that building succeeds (`BuildM.build_admits`): an expression with an affine form
has nothing in it that could fail but an unbound loop variable.
-/

set_option autoImplicit false

namespace AffineKernel

/-- Where an index expression can be built: there is an insertion point, the loop variables are
bound, and nodes that yield values are bound to nothing else. -/
structure Context.Admits (nodes : Expr → Prop) (refs : List LoopRef) (context : Context) :
    Prop where
  placed : context.stack ≠ []
  bound : ∀ ref ∈ refs, context.binding? ref.id ≠ none
  values : ∀ {expr : Expr} {binding : Binding}, nodes expr → expr.dtype? ≠ none →
    context.binding? expr.id = some binding → ∃ value, binding = .value value

variable {nodes : Expr → Prop} {refs : List LoopRef} {context : Context}

namespace Context.Admits

theorem emit (admits : context.Admits nodes refs) (event : Event) :
    (context.emit event).Admits nodes refs :=
  { admits with }

theorem bind (admits : context.Admits nodes refs) (id : NodeId) (value : Value) :
    (context.bind id (.value value)).Admits nodes refs where
  placed := admits.placed
  bound := by
    intro ref listed
    rw [binding?_bind]
    split
    · exact Option.some_ne_none _
    · exact admits.bound ref listed
  values := by
    intro expr binding member typed found
    rw [binding?_bind] at found
    split at found
    · exact ⟨value, (Option.some.inj found).symm⟩
    · exact admits.values member typed found

end Context.Admits

namespace Extraction

/-- A loop variable is collected where it has its dimension. -/
theorem slot_listed {ref : LoopRef} {found refs : List LoopRef} {position : Nat}
    (slotted : slot ref found = .ok position refs) : ∃ seen ∈ refs, seen.id = ref.id := by
  rw [slot, EStateM.get_bind_apply] at slotted
  cases place : found.findIdx? (fun seen => decide (seen.id = ref.id)) with
  | some known =>
      rw [place] at slotted
      cases slotted
      obtain ⟨inside, same, -⟩ := List.findIdx?_eq_some_iff_getElem.mp place
      exact ⟨_, List.getElem_mem inside, of_decide_eq_true same⟩
  | none =>
      rw [place] at slotted
      cases slotted
      exact ⟨ref, by simp, rfl⟩

end Extraction

namespace BuildM

/-- What is built for a node: a value, in a context where more can be built. -/
abbrev Admitted (nodes : Expr → Prop) (refs : List LoopRef) (action : BuildM Binding)
    (context : Context) : Prop :=
  Succeeds action context fun binding after =>
    (∃ value, binding = .value value) ∧ after.Admits nodes refs

theorem createValue_admits (kind : OpKind) (operands : List Value) (type : ValueType)
    (attributes : List (String × Attribute)) (admits : context.Admits nodes refs) :
    Succeeds (createValue kind operands type attributes) context
      fun _ after => after.Admits nodes refs := by
  rw [Succeeds, createValue, ensures_bind]
  exact ensures_create (fun point rest placed => { admits with }) fun empty => admits.placed empty

/-- A node is built once. -/
theorem onceValue_admits (admits : context.Admits nodes refs) (expr : Expr) {name : String}
    {action : BuildM Value} (member : nodes expr) (typed : expr.dtype? ≠ none)
    (builds : Succeeds action (context.emit (.materialize expr.id name))
      fun _ after => after.Admits nodes refs) :
    Admitted nodes refs (onceValue expr.id name action) context := by
  rw [Admitted, Succeeds, onceValue, once, ensures_bind, ensures_get]
  cases bound : context.binding? expr.id with
  | some binding => exact ⟨admits.values member typed bound, admits⟩
  | none =>
      simp only [ensures_bind, ensures_emit, ensures_map, ensures_bindNode, ensures_pure]
      refine builds.mono ?_ fun _ impossible => impossible
      intro value after reached
      exact ⟨⟨value, rfl⟩, reached.bind expr.id value⟩

/-- An operand is a value. -/
theorem operand_admits {α : Type} {action : BuildM Binding} {name : String}
    {next : Value → BuildM α} {done : α → Context → Prop}
    (yields : Admitted nodes refs action context)
    (later : ∀ value after, after.Admits nodes refs → Succeeds (next value) after done) :
    Succeeds (action >>= fun binding => needValue name binding >>= next) context done := by
  rw [Succeeds, ensures_bind]
  refine yields.mono ?_ fun _ impossible => impossible
  rintro _ after ⟨⟨value, rfl⟩, reached⟩
  exact later value after reached

/-- A bound loop variable is built already. -/
theorem loopVar_admits (admits : context.Admits nodes refs) (expr : Expr) {name label : String}
    (member : nodes expr) (typed : expr.dtype? ≠ none) {ref : LoopRef} (listed : ref ∈ refs)
    (same : ref.id = expr.id) :
    Admitted nodes refs (onceValue expr.id label (throw (.unboundLoopVar name))) context := by
  obtain ⟨binding, bound⟩ := Option.ne_none_iff_exists'.mp (admits.bound ref listed)
  rw [same] at bound
  rw [Admitted, Succeeds, onceValue, once, ensures_bind, ensures_get, bound]
  exact ⟨admits.values member typed bound, admits⟩

/-- An index expression can be built where its loop variables are bound. -/
theorem build_admits (graph : Graph nodes) {assignment : NodeId → Int64} : ∀ {expr : Expr}
    {number : Int} {form : AffineExpr} {found collected : List LoopRef} {context : Context},
    nodes expr → expr.exactValue? assignment = some number →
    Extraction.index expr found = .ok form collected → (∀ ref ∈ collected, ref ∈ refs) →
    context.Admits nodes refs → Admitted nodes refs (build expr) context
  | .loopVar id name, number, form, found, collected, context, member, _, read, within, admits
  | .axis id name _ _, number, form, found, collected, context, member, _, read, within, admits => by
      rw [Extraction.index] at read
      obtain ⟨position, middle, slotted, same⟩ := EStateM.bind_eq_ok read
      cases same
      obtain ⟨seen, listed, known⟩ := Extraction.slot_listed slotted
      rw [build]
      exact loopVar_admits admits _ member (Option.some_ne_none _) (within seen listed) known
  | .constant id dtype literal, _, _, _, _, context, member, _, _, _, admits => by
      rw [build]
      refine onceValue_admits admits (.constant id dtype literal) member (Option.some_ne_none _) ?_
      exact createValue_admits _ _ _ _ (admits.emit _)
  | .cast id dtype source, number, form, found, collected, context, member, valued, read, within,
      admits => by
      have below := graph.operands member source (by simp [Expr.operands])
      obtain ⟨sourceType, typed, different⟩ := graph.formed member
      obtain ⟨value, inner, -⟩ := Option.bind_eq_some_iff.mp valued
      rw [Extraction.index] at read
      rw [build]
      refine onceValue_admits admits (.cast id dtype source) member (Option.some_ne_none _) ?_
      refine valueType_succeeds typed (operand_admits
        (build_admits graph below inner read within (admits.emit _)) ?_)
      intro value after reached
      rw [emitCast, if_neg different]
      exact createValue_admits _ _ _ _ reached
  | .binary id dtype kind lhs rhs, number, form, found, collected, context, member, valued, read,
      within, admits => by
      have left := graph.operands member lhs (by simp [Expr.operands])
      have right := graph.operands member rhs (by simp [Expr.operands])
      obtain ⟨-, ⟨op, lowers⟩, -⟩ := graph.formed member
      obtain ⟨a, valuedLeft, valued⟩ := Option.bind_eq_some_iff.mp valued
      obtain ⟨b, valuedRight, valued⟩ := Option.bind_eq_some_iff.mp valued
      obtain ⟨value, -, held⟩ := Option.bind_eq_some_iff.mp valued
      have integer := (DType.hold?_eq_some held).2
      rw [Extraction.index] at read
      obtain ⟨leftForm, middle, readLeft, read⟩ := EStateM.bind_eq_ok read
      obtain ⟨rightForm, last, readRight, joined⟩ := EStateM.bind_eq_ok read
      obtain ⟨rfl, -⟩ := Extraction.join_cases joined
      obtain ⟨⟨more, rfl⟩, -⟩ := Extraction.eval_index readRight valuedRight
      have withinLeft : ∀ ref ∈ middle, ref ∈ refs := by
        intro ref listed
        exact within ref (List.mem_append_left more listed)
      rw [build]
      refine onceValue_admits admits (.binary id dtype kind lhs rhs) member (Option.some_ne_none _) ?_
      refine operand_admits
        (build_admits graph left valuedLeft readLeft withinLeft (admits.emit _)) ?_
      intro first middle reachedLeft
      refine operand_admits
        (build_admits graph right valuedRight readRight within reachedLeft) ?_
      intro second after reached
      have plain : ¬ (kind = .floorDiv ∧ dtype.isFloat = true) := by
        rintro ⟨-, float⟩
        rw [integer.fits.1] at float
        cases float
      rw [emitBinary, lowers]
      simp only [Succeeds, liftExcept, ensures_bind, ensures_pure, if_neg plain]
      exact createValue_admits _ _ _ _ reached
  | .unary .., _, _, _, _, _, _, valued, _, _, _ | .compare .., _, _, _, _, _, _, valued, _, _, _
  | .load .., _, _, _, _, _, _, valued, _, _, _ | .store .., _, _, _, _, _, _, valued, _, _, _
  | .select .., _, _, _, _, _, _, valued, _, _, _ | .call .., _, _, _, _, _, _, valued, _, _, _
  | .getBit .., _, _, _, _, _, _, valued, _, _, _
  | .reduce .., _, _, _, _, _, _, valued, _, _, _ => by cases valued

/-- **The affine form of an index expression and its value agree.** Let an index expression have an
exact value for some words of its loop variables, and an affine form. Then the affine form yields
this value on the words of the collected loop variables. And wherever these are bound the expression
can be built; the operations that this adds to the current block yield the same value, in every
module that grows out of the built one, and from every frame that holds the words and what else is
bound. -/
theorem index_readings_agree (graph : Graph nodes) {expr : Expr} (member : nodes expr)
    {assignment : NodeId → Int64} {number : Int}
    (valued : expr.exactValue? assignment = some number) {found : List LoopRef} {form : AffineExpr}
    (read : Extraction.index expr found = .ok form refs) (ends : context.AtEnds)
    (admits : context.Admits nodes refs) :
    (∃ word, form.eval (Extraction.words assignment refs) [] = some word ∧ word.toInt = number) ∧
      ∃ value after ops, build expr context = .ok (.value value) after ∧
        Lists ops context after ∧
        ∀ (module : Module) (run : Machine.RunBlock) (memory : Memory)
          (place : NodeId → Option Nat) (frame : Frame) (machine : Machine),
          after.module.Extends module →
          Represents nodes ⟨Expr.numbers assignment, memory, place⟩ context frame machine.heap →
          ∃ next last,
            Machine.advance (Machine.runOp module run) ops frame machine = .ok (.next next) last ∧
              last.heap = machine.heap ∧ next.find? value = some (.scalar (.int number)) := by
  have range := Expr.index_contains_of_exactValue valued
  obtain ⟨-, evaluates⟩ := Extraction.eval_index read valued
  refine ⟨⟨_, evaluates, Extraction.toInt_ofInt range⟩, ?_⟩
  have flat := Expr.isFlat_of_exactValue valued
  have succeeds := build_admits graph member valued read (fun ref listed => listed) admits
  have built := build_built graph expr flat member ends
  have both := succeeds.and built
  rw [Ensures] at both
  cases outcome : build expr context with
  | error error after =>
      rw [outcome] at both
      exact both.1.elim
  | ok binding after =>
      rw [outcome] at both
      obtain ⟨⟨⟨value, rfl⟩, -⟩, made⟩ := both
      obtain ⟨bound, computes⟩ := made value rfl
      obtain ⟨ops, lists, performs⟩ := computes.runs
      refine ⟨value, after, ops, rfl, lists, ?_⟩
      intro module run memory place frame machine extends_ represents
      have meaning := Expr.value_of_exactValue memory graph.operands graph.formed member valued
      obtain ⟨step, last, ran, next, rfl, heap, -, reached, -⟩ :=
        (performs module run _ frame machine extends_ represents).exists_ok meaning
      obtain ⟨scalar, dtype, bears⟩ := reached.bound member bound
      obtain rfl : scalar = .int number := Except.ok.inj (bears.meaning.symm.trans meaning)
      exact ⟨next, last, ran, heap, bears.found⟩

/-! ## A remainder in a loop -/

/-- The body of a loop with the loop variable `i`. -/
def insideLoop : Context :=
  let loop := beginLoop (.const 0) (.const 8) ⟨1, some "i", none, false⟩
  match loop (.start .deferred .empty #[]) with
  | .ok (counter, header) after =>
    (after.bind counter.id (.value header.counter)).savePoint (.atEnd header.body)
  | .error _ after => after

/-- The remainder of `i` by five. -/
def remainder : Expr := .binary 2 .index .rem (.loopVar 0 "i") (.constant 1 .index (.int 5))

/-- The remainder and its operands. -/
def remainderNodes (expr : Expr) : Prop :=
  expr = .loopVar 0 "i" ∨ expr = .constant 1 .index (.int 5) ∨ expr = remainder

theorem remainder_graph : Graph remainderNodes where
  operands := by
    rintro expr (rfl | rfl | rfl) operand listed
    · simp [Expr.operands] at listed
    · simp [Expr.operands] at listed
    · rcases List.mem_cons.mp listed with rfl | listed
      · exact .inl rfl
      · rw [List.mem_singleton.mp listed]
        exact .inr (.inl rfl)
  unique := by
    rintro expr other (rfl | rfl | rfl) (rfl | rfl | rfl) same <;> first | rfl | cases same
  formed := by
    rintro expr (rfl | rfl | rfl)
    · trivial
    · trivial
    · exact ⟨rfl, ⟨.remSI, rfl⟩, .index, rfl, rfl, rfl⟩

theorem insideLoop_admits : insideLoop.Admits remainderNodes [⟨0, "i"⟩] where
  placed := by decide
  bound := by
    intro ref listed
    rw [List.mem_singleton.mp listed]
    exact Option.some_ne_none (Binding.value (.arg ⟨1⟩ 0))
  values := by
    rintro expr binding (rfl | rfl | rfl) - found
    · exact ⟨.arg ⟨1⟩ 0, (Option.some.inj found).symm⟩
    · cases found
    · cases found

/-- The scope of the loop body while `i` is seven. -/
def seventh : Frame := [⟨[(.arg ⟨1⟩ 0, .scalar (.int 7))]⟩]

theorem seventh_represents : Represents remainderNodes
    ⟨Expr.numbers fun _ => 7, fun _ => none, fun _ => none⟩ insideLoop seventh #[] where
  entered := by decide
  bound := by
    rintro expr value (rfl | rfl | rfl) found
    · cases found
      exact ⟨.int 7, .index, rfl, ⟨rfl, by decide⟩, rfl, rfl, rfl⟩
    · cases found
    · cases found
  stored := by
    intro id value found
    cases found
  fits := by
    intro expr tensor buffer _ _ held
    cases held

/-- Both readings of the remainder of seven by five are two. -/
theorem remainder_readings_agree : ∃ form refs value after ops word,
    Extraction.index remainder [] = .ok form refs ∧
      form.eval (Extraction.words (fun _ => 7) refs) [] = some word ∧ word.toInt = 2 ∧
      build remainder insideLoop = .ok (.value value) after ∧
      ∃ next last, Machine.advance (Machine.runOp after.module (Machine.runBlock after.module 0))
          ops seventh .fresh = .ok (.next next) last ∧
        next.find? value = some (.scalar (.int 2)) := by
  have read : Extraction.index remainder [] =
      .ok (.binary .mod (.dim 0) (.constant 5)) [⟨0, "i"⟩] := rfl
  have valued : remainder.exactValue? (fun _ => 7) = some 2 := by decide
  have ends : ∀ point ∈ insideLoop.stack, point.before = none := by decide
  obtain ⟨⟨word, evaluates, same⟩, value, after, ops, built, -, runs⟩ :=
    index_readings_agree remainder_graph (.inr (.inr rfl)) valued read ends insideLoop_admits
  obtain ⟨next, last, ran, -, result⟩ := runs after.module (Machine.runBlock after.module 0)
    (fun _ => none) (fun _ => none) seventh .fresh (.refl _ _) seventh_represents
  exact ⟨_, _, value, after, ops, word, read, evaluates, same, built, next, last, ran, result⟩

end BuildM

end AffineKernel
