import AffineKernel.Proofs.Script.Invariants

/-!
# Scripts materialize nodes once

Between two statements of a script no axis is bound, and with a node its operands
are bound (`Context.Grounded`). Runs of building keep this, and so does the
variable of a loop, which is made of nothing. Hence it holds at every moment of a
script, and on the way no binding is lost (`Session.Passes.advances`).

So at every moment of a script, building a node without reductions below it
turns just the nodes into operations that it reaches and that were not bound, and
each of them once (`Context.Materializes`,
`Program.nodes_materialize_once`). What was built is not built again while the
script goes on in the region, or in a region inside of it.
-/

set_option autoImplicit false

namespace AffineKernel

namespace Context

variable {pool wider : Pool} {before after context : Context}

/-- A calm context in which the operands of bound nodes are bound. -/
structure Grounded (pool : Pool) (context : Context) : Prop extends Calm pool context where
  closed : context.Closed pool

namespace Grounded

/-- No node is bound that was not constructed yet. -/
theorem unbound (grounded : context.Grounded pool) {id : NodeId} (later : context.nextId ≤ id) :
    context.binding? id = none := by
  cases bound : context.binding? id with
  | none => rfl
  | some binding =>
      obtain ⟨expr, member, rfl, -⟩ := grounded.plain id binding bound
      exact absurd (grounded.sound.below member) (Nat.not_lt.mpr later)

/-- Nodes that were constructed since are not bound. -/
theorem closed_wider (grounded : context.Grounded pool) (le : pool.Le wider) {next : NodeId}
    (sound : wider.Sound next) : context.Closed wider := by
  intro expr member bound operand uses
  obtain ⟨binding, found⟩ := Context.isBound_iff.mp bound
  obtain ⟨other, old, same, -⟩ := grounded.plain _ _ found
  obtain rfl := sound.unique (le.expr old) member same
  exact grounded.closed other old bound operand uses

/-- The same bindings, within a wider pool. -/
theorem of_same (grounded : before.Grounded pool) (le : pool.Le wider) (calm : after.Calm wider)
    (same : ∀ id, after.binding? id = before.binding? id) : after.Grounded wider where
  toCalm := calm
  closed := (grounded.closed_wider le calm.sound).of_same same

/-- A loop variable is made of nothing. -/
theorem bind_loopVar (grounded : context.Grounded pool) {id : NodeId} {name : String}
    {binding : Binding} (member : pool.expr (.loopVar id name))
    (calm : (context.bind id binding).Calm pool) : (context.bind id binding).Grounded pool where
  toCalm := calm
  closed := by
    intro expr there bound operand uses
    rw [isBound_bind, Bool.or_eq_true, decide_eq_true_iff] at bound ⊢
    rcases bound with known | old
    · obtain rfl := grounded.sound.unique member there known
      simp [Expr.Uses, Expr.valueOperands, Expr.operands] at uses
    · exact .inr (grounded.closed expr there old operand uses)

end Grounded

end Context

namespace BuildM

/-- Between the statements of a script the operands of bound nodes are bound. -/
theorem grounded_endures : Endures fun pool context => context.Grounded pool where
  calm grounded := grounded.toCalm
  same grounded le calm same := grounded.of_same le calm same
  runs grounded runs members calm := ⟨calm, runs.closed grounded.sound members grounded.closed⟩
  counter _ grounded member _ calm := grounded.bind_loopVar member calm

/-- Contexts stay grounded while nodes are constructed and built, and no binding is lost. -/
theorem grounded_tracks : Tracks (fun pool context => context.Grounded pool) Context.Stays :=
  grounded_endures.tracks

end BuildM

/-! ## Statements -/

namespace Session

open Context

variable {pool : Pool} {session : Session}

/-- A step between grounded sessions that loses no binding. -/
abbrev Advances (pool : Pool) (session after : Session) : Prop :=
  Retains (fun pool context => context.Grounded pool) pool session after

/-- Up to every moment that a script passes, no binding is lost. -/
theorem Passes.advances {statements : List Statement} {moment : Session}
    (passes : Passes statements session moment) (holds : pool.Holds session.vars)
    (grounded : session.context.Grounded pool) : Advances pool session moment :=
  passes.retains BuildM.grounded_endures holds grounded

/-- At a moment a node is built: it and the nodes below it are materialized, and while the script
goes on in the region, building any of them again yields its binding and changes nothing. -/
structure BuildsOnce (moment : Session) (root : Expr) (point : InsertionPoint) (binding : Binding)
    (after : Context) : Prop where
  materializes : ∃ made, Materializes root point moment.context made after
  yields : after.binding? root.id = some binding
  again : ∀ {statements : List Statement} {later : Session},
    Passes statements { moment with context := after } later → ∀ node, root.Reaches node →
      ∃ bound, after.binding? node.id = some bound ∧
        BuildM.build node later.context = .ok bound later.context

end Session

namespace Program

/-- At a moment of a program there is a pool with all that its variables hold. -/
theorem grounded_of_passes {program : Program} {moment : Session}
    (passes : Session.Passes program.body (program.session .fresh) moment) :
    ∃ pool, moment.context.Grounded pool ∧ pool.Holds moment.vars := by
  have holds : Pool.empty.Holds (program.session .fresh).vars := fun _ _ found => by cases found
  have start : (program.session .fresh).context.Grounded .empty :=
    ⟨⟨Pool.sound_empty _, fun _ _ found => by cases found⟩, fun _ member => member.elim⟩
  obtain ⟨-, pool, -, grounded, held⟩ := passes.advances holds start
  exact ⟨pool, grounded, held⟩

/-- **Nodes are materialized once.** At every moment of a program with an insertion point, let a
node be built that reaches no reduction. For each node that it reaches and that was not bound
before, this creates one operation, or two for a floor quotient of floats, and no others. They are
listed at the insertion point, those of a node after those of its operands. These nodes are bound,
and no other binding changes. As long as the region stays open, building any node that is reached
yields the same binding and changes nothing. -/
theorem nodes_materialize_once (program : Program) {moment : Session}
    (passes : Session.Passes program.body (program.session .fresh) moment) {name : String}
    {root : Expr} (found : moment.vars.expr name = .ok root)
    (plain : ∀ node, root.Reaches node → node.isReduce = false) {point : InsertionPoint}
    {rest : List InsertionPoint} (stack : moment.context.stack = point :: rest)
    {binding : Binding} {after : Context}
    (built : BuildM.build root moment.context = .ok binding after) :
    moment.BuildsOnce root point binding after := by
  obtain ⟨pool, grounded, held⟩ := grounded_of_passes passes
  have member := held.expr found
  obtain ⟨yields, made, runs, reached⟩ :=
    (BuildM.build_runs grounded.sound root member _ grounded.unswept).of_ok built
  obtain ⟨-, done⟩ := (BuildM.grounded_tracks.build member grounded).of_ok built
  have bound : after.isBound root.id = true := Context.isBound_iff.mpr ⟨binding, yields⟩
  refine ⟨⟨made, runs.materializes grounded.sound member grounded.closed reached bound plain stack⟩,
    yields, fun passes node reaches => ?_⟩
  have there := done.closed.reaches done.sound member bound reaches
  obtain ⟨known, same⟩ := Context.isBound_iff.mp there
  obtain ⟨stays, -⟩ := passes.advances held done
  exact ⟨known, same, BuildM.build_of_bound (stays node.id known same)⟩

/-- Commands that construct the double of a floor quotient of two elements of a tensor, the first
one of which is built at once. -/
def doubledNodes : List Statement :=
  [.command ⟨some "a", false⟩ (.make (.load "x" [.const 0])),
    .command ⟨none, false⟩ (.build "a"),
    .command ⟨some "b", false⟩ (.make (.load "x" [.const 1])),
    .command ⟨some "q", false⟩ (.make (.binary .floorDiv (.var "a") (.var "b"))),
    .command ⟨some "s", false⟩ (.make (.binary .add (.var "q") (.var "q")))]

/-- A program with a function of these commands. -/
def doubledQuotient : Program where
  mode := some .deferred
  setting := none
  setup := []
  body :=
    [.command ⟨some "x", false⟩ (.placeholder "x" [2] .float32),
      .function ⟨none, false⟩ "f" ["x"] none doubledNodes]

/-- The tensor of the program. -/
def doubledTensor : Tensor := ⟨0, "x", [2], .float32⟩

/-- The floor quotient. -/
def quotientNode : Expr :=
  .binary 5 .float32 .floorDiv (.load 2 doubledTensor [.constant 1 .index (.int 0)])
    (.load 4 doubledTensor [.constant 3 .index (.int 1)])

/-- The double of the floor quotient. -/
def doubledNode : Expr := .binary 6 .float32 .add quotientNode quotientNode

/-- The session in which the double is about to be built. -/
def doubledMoment : Session :=
  let declared := (Session.runStatement (.command ⟨some "x", false⟩
    (.placeholder "x" [2] .float32)) (doubledQuotient.session .fresh)).2
  let opened := (Session.attempt (BuildM.beginFunction "f" [doubledTensor]) declared).2
  doubledNodes.foldl (fun session statement => (Session.runStatement statement session).2)
    (opened.inside ⟨1⟩)

/-- The context in which the double has been built. -/
def doubledBuilt : Context :=
  match BuildM.build doubledNode doubledMoment.context with
  | .ok _ after => after
  | .error _ after => after

theorem doubledMoment_passes :
    Session.Passes doubledQuotient.body (doubledQuotient.session .fresh) doubledMoment :=
  .later (.function rfl rfl (.later (.later (.later (.later (.later .here))))))

theorem doubledNode_plain (node : Expr) (reaches : doubledNode.Reaches node) :
    node.isReduce = false := by
  have reached : node ∈ [doubledNode, quotientNode,
      .load 2 doubledTensor [.constant 1 .index (.int 0)],
      .load 4 doubledTensor [.constant 3 .index (.int 1)]] := by
    induction reaches with
    | refl => simp
    | tail _ uses ih =>
        simp only [List.mem_cons, List.not_mem_nil, or_false] at ih
        rcases ih with rfl | rfl | rfl | rfl <;>
          simp [Expr.Uses, Expr.valueOperands, Expr.operands, doubledNode,
            quotientNode] at uses ⊢ <;>
          grind
  simp only [List.mem_cons, List.not_mem_nil, or_false] at reached
  rcases reached with rfl | rfl | rfl | rfl <;> rfl

/-- The load, the quotient, its floor and the sum are created; the first element was built
before. -/
theorem doubledQuotient_built :
    doubledMoment.vars.expr "s" = .ok doubledNode ∧
      doubledMoment.context.isBound 2 = true ∧
      doubledBuilt.module.size = doubledMoment.context.module.size + 4 ∧
      doubledMoment.BuildsOnce doubledNode (.atEnd ⟨1⟩) (.value (.result ⟨5⟩ 0)) doubledBuilt := by
  have found : doubledMoment.vars.expr "s" = .ok doubledNode := by rfl
  have stack : doubledMoment.context.stack = [.atEnd ⟨1⟩, .atEnd Module.body] := by rfl
  have built : BuildM.build doubledNode doubledMoment.context =
      .ok (.value (.result ⟨5⟩ 0)) doubledBuilt := by rfl
  exact ⟨found, by decide +kernel, by decide +kernel, nodes_materialize_once doubledQuotient
    doubledMoment_passes found doubledNode_plain stack built⟩

end Program

end AffineKernel
