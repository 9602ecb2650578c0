import AffineKernel.Proofs.Build.Outcome
import AffineKernel.Proofs.Script.Commands
import AffineKernel.Script.Program

/-!
# How statements run their bodies

A statement with a region runs its body from a session inside of the region
(`Session.inside`), builds the end of the region unless the body has failed, and
closes it (`Session.closeRegion`). The equations here say so for the functions
that run statements, so that a proof about a statement is about these steps.
-/

set_option autoImplicit false

namespace AffineKernel.Session

variable {session after : Session} {block : BlockId}

/-- The session in which the body of a region starts. -/
def inside (session : Session) (block : BlockId) : Session :=
  { session with context := session.context.enterRegion.savePoint (.atEnd block) }

/-- The session in which the body of a loop starts: the loop variable is bound, and named. -/
def insideLoop (session : Session) (header : BuildM.LoopHeader) (var : Expr)
    (counter : Option String) : Session :=
  let enter : SessionM Unit := do
    modifyContext (·.bind var.id (.value header.counter))
    assign counter (.expr var)
  (enter (session.inside header.body)).2

/-- The session after a region was closed. -/
def leaving (session : Session) (mark : RegionMark) : Session :=
  { session with context := session.context.leaveRegion mark }

/-- What happens after the body of a region: unless the body has failed, the end of the region is
built; then the region is closed. -/
def closeRegion (mark : RegionMark) (leave : Session → BuildM Unit) :
    BodyOutcome → Session → BodyOutcome × Session
  | (records, some error), done => ((records, some error), done.leaving mark)
  | (records, none), done =>
    match attempt (leave done) done with
    | (.ok _, last) => ((records, none), last.leaving mark)
    | (.error error, last) => ((records, some error), last.leaving mark)

theorem closeRegion_ok {mark : RegionMark} {leave : Session → BuildM Unit}
    {records : List Record} {result : Unit} (ended : attempt (leave session) session = (.ok result, after)) :
    closeRegion mark leave (records, none) session = ((records, none), after.leaving mark) := by
  rw [closeRegion, ended]

theorem closeRegion_error {mark : RegionMark} {leave : Session → BuildM Unit}
    {records : List Record} {error : BuildError}
    (ended : attempt (leave session) session = (.error error, after)) :
    closeRegion mark leave (records, none) session =
      ((records, some error), after.leaving mark) := by
  rw [closeRegion, ended]

theorem runRegion_apply (enter : SessionM Unit) (body : SessionM BodyOutcome)
    (leave : Session → BuildM Unit) :
    runRegion block enter body leave session =
      closeRegion session.context.mark leave (body (enter (session.inside block)).2).1
        (body (enter (session.inside block)).2).2 := by
  have entered : (modifyContext fun context =>
      context.enterRegion.savePoint (.atEnd block)) session = ((), session.inside block) := rfl
  rw [runRegion, get_bind_apply, bind_apply, entered, bind_apply, bind_apply]
  rcases body (enter (session.inside block)).2 with ⟨⟨records, failure⟩, done⟩
  cases failure with
  | some error => rfl
  | none =>
      dsimp only
      rw [get_bind_apply, bind_apply, closeRegion]
      rcases attempt (leave done) done with ⟨result, last⟩
      cases result <;> rfl

/-- `Passes statements session moment`: running the statements from a session passes through
`moment`, between two statements of the list or of a body in it. A failure is no end here, be it
caught or not. -/
inductive Passes : List Statement → Session → Session → Prop where
  | here {statements : List Statement} {session : Session} : Passes statements session session
  | later {statement : Statement} {rest : List Statement} {session moment : Session} :
      Passes rest (runStatement statement session).2 moment →
      Passes (statement :: rest) session moment
  | function {label : Label} {name : String} {args : List String} {result : Option String}
      {body rest : List Statement} {session opened moment : Session} {tensors : List Tensor}
      {op : OpId} {block : BlockId} :
      args.mapM session.vars.tensor = .ok tensors →
      attempt (BuildM.beginFunction name tensors) session = (.ok (op, block), opened) →
      Passes body (opened.inside block) moment →
      Passes (.function label name args result body :: rest) session moment
  | loop {label : Label} {counter : Option String} {lower upper : IndexTerm}
      {spec : BuildM.LoopSpec} {body rest : List Statement} {session opened moment : Session}
      {low high : Bound} {var : Expr} {header : BuildM.LoopHeader} :
      session.vars.bound lower = .ok low → session.vars.bound upper = .ok high →
      attempt (BuildM.beginLoop low high spec) session = (.ok (var, header), opened) →
      Passes body (opened.insideLoop header var counter) moment →
      Passes (.loop label counter lower upper spec body :: rest) session moment
  | conditional {label : Label} {condition : Operand} {body rest : List Statement}
      {session opened moment : Session} {operand : BuildM Expr} {op : OpId} {block : BlockId} :
      session.vars.operand condition = .ok operand →
      attempt (do BuildM.beginConditional (← operand)) session = (.ok (op, block), opened) →
      Passes body (opened.inside block) moment →
      Passes (.conditional label condition body :: rest) session moment
  | within {label : Label} {body rest : List Statement} {session moment : Session} :
      Passes body session moment → Passes (.scoped label body :: rest) session moment
  | point {label : Label} {ref : PointRef} {point : InsertionPoint} {body rest : List Statement}
      {session moment : Session} :
      session.resolvePoint ref = .ok point →
      Passes body { session with context := session.context.savePoint point } moment →
      Passes (.withPoint label ref body :: rest) session moment

/-! ## Build actions -/

/-- What an action ensures holds after a step that ran it with success. -/
theorem attempt_ok {α : Type} {action : BuildM α} {done : α → Context → Prop}
    {failed : Context → Prop} (ensures : BuildM.Ensures action session.context done failed)
    {a : α} (run : attempt action session = (.ok a, after)) : done a after.context := by
  rw [attempt_apply] at run
  cases outcome : action session.context with
  | ok b context =>
      rw [outcome] at run
      cases run
      exact ensures.of_ok outcome
  | error error context =>
      rw [outcome] at run
      cases run

/-- What an action ensures holds after a step that ran it and failed. -/
theorem attempt_error {α : Type} {action : BuildM α} {done : α → Context → Prop}
    {failed : Context → Prop} (ensures : BuildM.Ensures action session.context done failed)
    {error : BuildError} (run : attempt action session = (.error error, after)) :
    failed after.context := by
  rw [attempt_apply] at run
  cases outcome : action session.context with
  | ok b context =>
      rw [outcome] at run
      cases run
  | error error context =>
      rw [outcome] at run
      cases run
      exact ensures.of_error outcome

theorem attempt_vars {α : Type} {action : BuildM α} {result : Except BuildError α}
    (run : attempt action session = (result, after)) : after.vars = session.vars := by
  rw [attempt_apply] at run
  cases outcome : action session.context <;> rw [outcome] at run <;> cases run <;> rfl

/-- The action behind a step that has succeeded. -/
theorem attempt_eq_ok {α : Type} {action : BuildM α} {a : α}
    (run : attempt action session = (.ok a, after)) :
    action session.context = .ok a after.context := by
  rw [attempt_apply] at run
  cases outcome : action session.context <;> rw [outcome] at run <;> cases run
  rfl

theorem assign_context (name : Option String) (entity : Entity) (session : Session) :
    (assign name entity session).2.context = session.context := by
  cases name <;> rfl

/-- In the body of a loop its variable is bound to the argument of the block. -/
theorem insideLoop_context (header : BuildM.LoopHeader) (var : Expr) (counter : Option String)
    (session : Session) :
    (session.insideLoop header var counter).context =
      (session.inside header.body).context.bind var.id (.value header.counter) :=
  assign_context counter (.expr var) _

/-! ## Statements that end well -/

/-- The steps of a region that has ended well. -/
theorem runRegion_ok {enter : SessionM Unit} {body : SessionM BodyOutcome}
    {leave : Session → BuildM Unit}
    (ended : (runRegion block enter body leave session).1.2 = none) :
    ∃ records done last, body (enter (session.inside block)).2 = ((records, none), done) ∧
      attempt (leave done) done = (.ok (), last) ∧
      runRegion block enter body leave session =
        ((records, none), last.leaving session.context.mark) := by
  rw [runRegion_apply] at ended ⊢
  rcases outcome : body (enter (session.inside block)).2 with ⟨⟨records, failure⟩, done⟩
  rw [outcome] at ended
  cases failure with
  | some error => cases ended
  | none =>
      rcases closed : attempt (leave done) done with ⟨result, last⟩
      cases result with
      | error error =>
          rw [closeRegion_error closed] at ended
          cases ended
      | ok _ => exact ⟨records, done, last, rfl, closed, closeRegion_ok closed⟩

/-- A region that is reported without a failure has ended well. -/
theorem runRegion_report_ok {name : Option String} {op : OpId} {enter : SessionM Unit}
    {body : SessionM BodyOutcome} {leave : Session → BuildM Unit}
    (ended : ((runRegion block enter body leave >>= reportRegion name op) session).1.2 = none) :
    ∃ records done last, body (enter (session.inside block)).2 = ((records, none), done) ∧
      attempt (leave done) done = (.ok (), last) ∧
      ((runRegion block enter body leave >>= reportRegion name op) session).2 =
        (assign name (.op op) (last.leaving session.context.mark)).2 := by
  rw [bind_apply] at ended ⊢
  rcases outcome : runRegion block enter body leave session with ⟨⟨records, failure⟩, closed⟩
  rw [outcome] at ended
  cases failure with
  | some error => cases ended
  | none =>
      have clean : (runRegion block enter body leave session).1.2 = none := by rw [outcome]
      obtain ⟨records, done, last, ran, left, same⟩ := runRegion_ok clean
      rw [same] at outcome
      cases outcome
      exact ⟨records, done, last, ran, left, rfl⟩

section Functions

variable {label : Label} {name : String} {args : List String} {result : Option String}
  {body : SessionM BodyOutcome} {tensors : List Tensor}
  (resolved : args.mapM session.vars.tensor = .ok tensors)
include resolved

/-- A function over known tensors: it is begun, its body runs, and its end is built. -/
theorem runFunction_apply :
    runFunction label name args result body session =
      (attempt (BuildM.beginFunction name tensors) >>= fun begun => match begun with
        | .error error => pure (.body [] none, some error)
        | .ok (op, block) =>
          runRegion block (pure ()) body (fun session =>
            BuildM.endFunction (result.bind fun name => (session.vars.expr name).toOption)) >>=
              reportRegion label.name op : SessionM Outcome) session := by
  rw [runFunction, get_bind_apply]
  generalize args.mapM session.vars.tensor = looked at resolved ⊢
  subst resolved
  rfl

/-- The steps of a function that has ended well. -/
theorem runFunction_ok (ended : (runFunction label name args result body session).1.2 = none) :
    ∃ op block opened records done last,
      attempt (BuildM.beginFunction name tensors) session = (.ok (op, block), opened) ∧
      body (opened.inside block) = ((records, none), done) ∧
      attempt (BuildM.endFunction (result.bind fun name => (done.vars.expr name).toOption)) done =
        (.ok (), last) ∧
      (runFunction label name args result body session).2 =
        (assign label.name (.op op) (last.leaving opened.context.mark)).2 := by
  rw [runFunction_apply resolved] at ended ⊢
  rw [bind_apply] at ended ⊢
  rcases begun : attempt (BuildM.beginFunction name tensors) session with ⟨made, opened⟩
  rw [begun] at ended
  cases made with
  | error error => cases ended
  | ok made =>
      obtain ⟨op, block⟩ := made
      obtain ⟨records, done, last, ran, left, same⟩ := runRegion_report_ok ended
      exact ⟨op, block, opened, records, done, last, rfl, ran, left, same⟩

/-- A function all of whose steps succeed ends well. -/
theorem runFunction_of_ok {op : OpId} {block : BlockId} {opened done last : Session}
    {records : List Record}
    (begun : attempt (BuildM.beginFunction name tensors) session = (.ok (op, block), opened))
    (ran : body (opened.inside block) = ((records, none), done))
    (ended : attempt (BuildM.endFunction (result.bind fun name =>
      (done.vars.expr name).toOption)) done = (.ok (), last)) :
    runFunction label name args result body session =
      ((.body records (some op), none),
        (assign label.name (.op op) (last.leaving opened.context.mark)).2) := by
  have entered : ((pure () : SessionM Unit) (opened.inside block)).2 = opened.inside block := rfl
  rw [runFunction_apply resolved, bind_apply, begun]
  change (runRegion block (pure ()) body _ >>= reportRegion label.name op) opened = _
  rw [bind_apply, runRegion_apply, entered, ran, closeRegion_ok ended]
  rfl

end Functions

section Regions

variable {label : Label} {body : SessionM BodyOutcome}

/-- The steps of a loop over known bounds that has ended well. -/
theorem runLoop_ok {counter : Option String} {lower upper : IndexTerm} {spec : BuildM.LoopSpec}
    {low high : Bound} (lowFound : session.vars.bound lower = .ok low)
    (highFound : session.vars.bound upper = .ok high)
    (ended : (runLoop label counter lower upper spec body session).1.2 = none) :
    ∃ var header opened records done last,
      attempt (BuildM.beginLoop low high spec) session = (.ok (var, header), opened) ∧
      body (opened.insideLoop header var counter) = ((records, none), done) ∧
      attempt BuildM.endBody done = (.ok (), last) ∧
      (runLoop label counter lower upper spec body session).2 =
        (assign label.name (.op header.op) (last.leaving opened.context.mark)).2 := by
  have resolved : (do return (← session.vars.bound lower, ← session.vars.bound upper) :
      Resolved (Bound × Bound)) = .ok (low, high) := by
    rw [lowFound, highFound]
    rfl
  rw [runLoop, get_bind_apply, resolved] at ended ⊢
  dsimp only at ended ⊢
  rw [bind_apply] at ended ⊢
  rcases begun : attempt (BuildM.beginLoop low high spec) session with ⟨made, opened⟩
  rw [begun] at ended
  cases made with
  | error error => cases ended
  | ok made =>
      obtain ⟨var, header⟩ := made
      obtain ⟨records, done, last, ran, left, same⟩ := runRegion_report_ok ended
      exact ⟨var, header, opened, records, done, last, rfl, ran, left, same⟩

/-- The steps of a conditional on a known expression that has ended well. -/
theorem runConditional_ok {name : String} {condition : Expr}
    (found : session.vars.expr name = .ok condition)
    (ended : (runConditional label (.var name) body session).1.2 = none) :
    ∃ op block opened records done last,
      attempt (BuildM.beginConditional condition) session = (.ok (op, block), opened) ∧
      body (opened.inside block) = ((records, none), done) ∧
      attempt BuildM.endBody done = (.ok (), last) ∧
      (runConditional label (.var name) body session).2 =
        (assign label.name (.op op) (last.leaving opened.context.mark)).2 := by
  have resolved : session.vars.operand (.var name) = .ok (pure condition) := by
    rw [Variables.operand, found]
    rfl
  rw [runConditional, get_bind_apply, resolved] at ended ⊢
  dsimp only at ended ⊢
  rw [pure_bind, bind_apply] at ended ⊢
  rcases begun : attempt (BuildM.beginConditional condition) session with ⟨made, opened⟩
  rw [begun] at ended
  cases made with
  | error error => cases ended
  | ok made =>
      obtain ⟨op, block⟩ := made
      obtain ⟨records, done, last, ran, left, same⟩ := runRegion_report_ok ended
      exact ⟨op, block, opened, records, done, last, rfl, ran, left, same⟩

end Regions

/-- In a body that has ended well, each statement has ended well or its failure was caught. -/
theorem runBody_cons_ok {statement : Statement} {rest : List Statement}
    (ended : (runBody (statement :: rest) session).1.2 = none) :
    ((runStatement statement session).1.failure = none ∨ statement.label.caught = true) ∧
      (runBody rest (runStatement statement session).2).1.2 = none ∧
      (runBody (statement :: rest) session).2 =
        (runBody rest (runStatement statement session).2).2 := by
  rw [runBody, bind_apply] at ended ⊢
  cases failure : (runStatement statement session).1.failure with
  | none =>
      rw [failure] at ended
      exact ⟨.inl rfl, ended, rfl⟩
  | some error =>
      cases caught : statement.label.caught with
      | true =>
          rw [failure, caught] at ended
          exact ⟨.inr rfl, ended, rfl⟩
      | false =>
          rw [failure, caught] at ended
          cases ended

end AffineKernel.Session
