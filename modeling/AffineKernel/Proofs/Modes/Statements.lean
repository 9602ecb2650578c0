import AffineKernel.Proofs.Modes.Commands
import AffineKernel.Proofs.Script.Bodies

/-!
# Statements in both modes

The steps of a script are its statements, each with the session that it is run
in, bodies included (`Session.stepsOfBody`). No step may give storage to a tensor
that has some (`Session.HousesOnce`), or move the insertion point before an
operation that only computes a scalar (`Session.Anchored`). A body is prompt if it
calls nothing, and builds every store right after its construction (`promptBody`).

A prompt body with such steps that succeeds in both modes leads from paired
sessions to paired sessions (`Session.runBody_proceeds`), by recursion over
statements. The region of a function, a loop or a conditional is entered and left
in both modes at once (`Session.opening_proceeds`), and leaving it restores the
bindings that were there when it was opened.
-/

set_option autoImplicit false

namespace AffineKernel

open Context

/-! ## Prompt bodies -/

/-- Whether a command makes a call. -/
def Command.isCall : Command → Bool
  | .make recipe => recipe.isCall
  | _ => false

/-- Whether a statement makes a store. -/
def Statement.isStore : Statement → Bool
  | .command _ (.make recipe) => recipe.isStore
  | _ => false

/-- Whether a statement builds what a name stands for. -/
def Statement.buildsNamed (name : String) : Statement → Bool
  | .command _ (.build target) => target == name
  | _ => false

/-- Whether a statement makes no store, or one that is built by the first statement after it. -/
def Statement.promptly (statement : Statement) (rest : List Statement) : Bool :=
  !statement.isStore ||
    match statement.label.name, rest with
    | some name, next :: _ => next.buildsNamed name
    | _, _ => false

mutual

/-- Whether a statement calls nothing, and has a prompt body. -/
def Statement.prompt : Statement → Bool
  | .command _ asked => !asked.isCall
  | .function _ _ _ _ body | .loop _ _ _ _ _ body | .conditional _ _ body | .withPoint _ _ body
  | .scoped _ body => promptBody body

/-- Whether the statements of a body call nothing, and every store is built right after its
construction. -/
def promptBody : List Statement → Bool
  | [] => true
  | statement :: rest => statement.prompt && statement.promptly rest && promptBody rest

end

namespace Session

/-! ## Steps -/

mutual

/-- The steps of a statement that is run in a session: the statement itself, and those of its
body. -/
def steps : Statement → Session → List (Session × Statement)
  | .command label asked, session => [(session, .command label asked)]
  | .function label name args result body, session =>
    (session, .function label name args result body) ::
      match args.mapM session.vars.tensor with
      | .ok tensors =>
        match attempt (BuildM.beginFunction name tensors) session with
        | (.ok (_, block), opened) => stepsOfBody body (opened.inside block)
        | _ => []
      | .error _ => []
  | .loop label counter lower upper spec body, session =>
    (session, .loop label counter lower upper spec body) ::
      match session.vars.bound lower, session.vars.bound upper with
      | .ok low, .ok high =>
        match attempt (BuildM.beginLoop low high spec) session with
        | (.ok (var, header), opened) => stepsOfBody body (opened.insideLoop header var counter)
        | _ => []
      | _, _ => []
  | .conditional label condition body, session =>
    (session, .conditional label condition body) ::
      match session.vars.operand condition with
      | .ok operand =>
        match attempt (do BuildM.beginConditional (← operand)) session with
        | (.ok (_, block), opened) => stepsOfBody body (opened.inside block)
        | _ => []
      | .error _ => []
  | .withPoint label ref body, session =>
    (session, .withPoint label ref body) ::
      match session.resolvePoint ref with
      | .ok point => stepsOfBody body { session with context := session.context.savePoint point }
      | .error _ => []
  | .scoped label body, session => (session, .scoped label body) :: stepsOfBody body session

/-- The steps of the statements of a body, in order. -/
def stepsOfBody : List Statement → Session → List (Session × Statement)
  | [], _ => []
  | statement :: rest, session =>
    steps statement session ++ stepsOfBody rest (runStatement statement session).2

end

end Session

/-- The tensors that variables hold for a statement to give storage to; a new tensor is none of
them. -/
def Statement.housed (vars : Variables) : Statement → List Tensor
  | .command _ (.allocTensor name) => (vars.tensor name).toOption.toList
  | .function _ _ args _ _ => (args.mapM vars.tensor).toOption.getD []
  | _ => []

/-- The tensors that a statement makes loads of, not counting its body. -/
def Statement.loads (vars : Variables) : Statement → List Tensor
  | .command _ asked => asked.loads vars
  | _ => []

/-- The tensors that a statement makes stores to, not counting its body. -/
def Statement.stores (vars : Variables) : Statement → List Tensor
  | .command _ asked => asked.stores vars
  | _ => []

/-- The places that a statement moves the insertion point to, not counting its body. -/
def Statement.points : Statement → List PointRef
  | .command _ (.savePoint ref) | .withPoint _ ref _ => [ref]
  | _ => []

namespace Session

/-- What a step gives storage to are different tensors without storage. -/
def HousesOnce (step : Session × Statement) : Prop :=
  BuildM.Unstored step.1.context (step.2.housed step.1.vars)

instance (step : Session × Statement) : Decidable (HousesOnce step) :=
  decidable_of_iff (((step.2.housed step.1.vars).map Tensor.id).Nodup ∧
      ∀ tensor ∈ step.2.housed step.1.vars, step.1.context.storage.find? tensor.id = none)
    ⟨fun ⟨distinct, free⟩ => ⟨distinct, free⟩, fun ⟨distinct, free⟩ => ⟨distinct, free⟩⟩

/-- A step moves the insertion point to ends of blocks and before operations that act, and not
before operations that only compute a scalar. -/
def Anchored (step : Session × Statement) : Prop :=
  ∀ ref ∈ step.2.points, ref.anchored step.1 = true

instance (step : Session × Statement) : Decidable (Anchored step) :=
  inferInstanceAs (Decidable (∀ ref ∈ step.2.points, ref.anchored step.1 = true))

/-- A step is anchored, gives no tensor a second storage, and loads and stores as a permit allows
it. -/
structure Heeds (permit : Permit) (step : Session × Statement) : Prop where
  once : HousesOnce step
  anchored : Anchored step
  loads : ∀ tensor ∈ step.2.loads step.1.vars, permit.loads tensor
  stores : ∀ tensor ∈ step.2.stores step.1.vars, permit.stores tensor

/-! ## Statements that succeed -/

/-- Whether all statements of a body have succeeded. -/
def BodyOutcome.succeeds (outcome : BodyOutcome) : Bool :=
  outcome.2.isNone && Record.allSucceed outcome.1

section Success

variable {session : Session}

/-- In a body that succeeds all statements do. -/
theorem runBody_cons_succeeds {statement : Statement} {rest : List Statement}
    (succeeds : BodyOutcome.succeeds (runBody (statement :: rest) session).1 = true) :
    (runStatement statement session).1.succeeds = true ∧
      BodyOutcome.succeeds (runBody rest (runStatement statement session).2).1 = true ∧
      (runBody (statement :: rest) session).2 =
        (runBody rest (runStatement statement session).2).2 := by
  obtain ⟨clean, records⟩ : (runBody (statement :: rest) session).1.2.isNone = true ∧
      Record.allSucceed (runBody (statement :: rest) session).1.1 = true := by
    simpa [BodyOutcome.succeeds] using succeeds
  obtain ⟨-, ended, same⟩ := runBody_cons_ok (Option.isNone_iff_eq_none.mp clean)
  have parts : (runBody (statement :: rest) session).1.1 = (runStatement statement session).1 ::
      (runBody rest (runStatement statement session).2).1.1 := by
    rw [runBody, bind_apply] at clean ⊢
    cases failure : (runStatement statement session).1.failure with
    | none => rfl
    | some error =>
        cases caught : statement.label.caught with
        | true => rfl
        | false =>
            rw [failure, caught] at clean
            cases clean
  rw [parts, Record.allSucceed, Bool.and_eq_true] at records
  exact ⟨records.1, by simp [BodyOutcome.succeeds, ended, records.2], same⟩

variable {block : BlockId} {enter : SessionM Unit} {body : SessionM BodyOutcome}
  {leave : Session → BuildM Unit} {name : Option String} {op : OpId}

/-- The steps of a region that has succeeded. -/
theorem runRegion_succeeds (succeeds : Outcome.succeeds
      ((runRegion block enter body leave >>= reportRegion name op) session).1 = true) :
    ∃ last, BodyOutcome.succeeds (body (enter (session.inside block)).2).1 = true ∧
      attempt (leave (body (enter (session.inside block)).2).2)
        (body (enter (session.inside block)).2).2 = (.ok (), last) ∧
      ((runRegion block enter body leave >>= reportRegion name op) session).2 =
        (assign name (.op op) (last.leaving session.context.mark)).2 := by
  obtain ⟨records, done, last, ran, left, same⟩ :=
    runRegion_report_ok (clean_of_succeeds succeeds)
  refine ⟨last, ?_, by rw [ran]; exact left, same⟩
  rw [bind_apply, runRegion_apply, ran, closeRegion_ok left] at succeeds
  rw [ran]
  exact succeeds

end Success

/-! ## Statements with a region -/

/-- Begins an operation, and runs a body inside of its region. -/
def runOpening {β : Type} (begin_ : BuildM β) (op : β → OpId) (block : β → BlockId)
    (enter : β → SessionM Unit) (leave : Session → BuildM Unit) (name : Option String)
    (body : SessionM BodyOutcome) : SessionM Outcome := do
  match ← attempt begin_ with
  | .error error => return (.body [] none, some error)
  | .ok made => reportRegion name (op made) (← runRegion (block made) (enter made) body leave)

section Openings

variable {session : Session} (label : Label) (body : SessionM BodyOutcome)

theorem runFunction_opening (name : String) {args : List String} (result : Option String)
    {tensors : List Tensor} (resolved : args.mapM session.vars.tensor = .ok tensors) :
    runFunction label name args result body session =
      runOpening (BuildM.beginFunction name tensors) Prod.fst Prod.snd (fun _ => pure ())
        (fun done => BuildM.endFunction (result.bind fun name => (done.vars.expr name).toOption))
        label.name body session := by
  rw [runFunction, get_bind_apply, resolved, runOpening, bind_apply]
  dsimp only
  rw [bind_apply]
  rcases attempt (BuildM.beginFunction name tensors) session with ⟨_ | _, _⟩ <;> rfl

/-- Binds and names the variable of a loop. -/
def enterLoop (counter : Option String) (made : Expr × BuildM.LoopHeader) : SessionM Unit := do
  modifyContext (·.bind made.1.id (.value made.2.counter))
  assign counter (.expr made.1)

theorem runLoop_opening (counter : Option String) {lower upper : IndexTerm} (spec : BuildM.LoopSpec)
    {low high : Bound} (lowFound : session.vars.bound lower = .ok low)
    (highFound : session.vars.bound upper = .ok high) :
    runLoop label counter lower upper spec body session =
      runOpening (BuildM.beginLoop low high spec) (fun made => made.2.op) (fun made => made.2.body)
        (enterLoop counter) (fun _ => BuildM.endBody) label.name body session := by
  have resolved : (do return (← session.vars.bound lower, ← session.vars.bound upper) :
      Resolved (Bound × Bound)) = .ok (low, high) := by
    rw [lowFound, highFound]
    rfl
  rw [runLoop, get_bind_apply, resolved, runOpening, bind_apply]
  dsimp only
  rw [bind_apply]
  rcases attempt (BuildM.beginLoop low high spec) session with ⟨_ | _, _⟩ <;> rfl

theorem runConditional_opening {condition : Operand} {operand : BuildM Expr}
    (resolved : session.vars.operand condition = .ok operand) :
    runConditional label condition body session =
      runOpening (do BuildM.beginConditional (← operand)) Prod.fst Prod.snd (fun _ => pure ())
        (fun _ => BuildM.endBody) label.name body session := by
  rw [runConditional, get_bind_apply, resolved, runOpening, bind_apply]
  dsimp only
  rw [bind_apply]
  rcases attempt (do BuildM.beginConditional (← operand)) session with ⟨_ | _, _⟩ <;> rfl

variable {β : Type} {body : SessionM BodyOutcome} {begin_ : BuildM β} {op : β → OpId}
  {block : β → BlockId} {enter : β → SessionM Unit} {leave : Session → BuildM Unit}
  {name : Option String}

/-- The steps of an operation with a region that has succeeded. -/
theorem runOpening_succeeds (succeeds : Outcome.succeeds
      (runOpening begin_ op block enter leave name body session).1 = true) :
    ∃ made opened last, attempt begin_ session = (.ok made, opened) ∧
      BodyOutcome.succeeds (body (enter made (opened.inside (block made))).2).1 = true ∧
      attempt (leave (body (enter made (opened.inside (block made))).2).2)
        (body (enter made (opened.inside (block made))).2).2 = (.ok (), last) ∧
      (runOpening begin_ op block enter leave name body session).2 =
        (assign name (.op (op made)) (last.leaving opened.context.mark)).2 := by
  rw [runOpening, bind_apply] at succeeds ⊢
  rcases begun : attempt begin_ session with ⟨made, opened⟩
  rw [begun] at succeeds
  cases made with
  | error error => cases succeeds
  | ok made =>
      obtain ⟨last, ran, left, same⟩ := runRegion_succeeds succeeds
      exact ⟨made, opened, last, rfl, ran, left, same⟩

end Openings

/-- From a session on, a body that succeeds in both modes keeps sessions paired. -/
def Agrees (permit : Permit) (body : SessionM BodyOutcome) (opened : Session) : Prop :=
  ∀ {pool : Pool} {other : Session}, Paired permit pool opened other →
    BodyOutcome.succeeds (body opened).1 = true → BodyOutcome.succeeds (body other).1 = true →
    Proceeds permit pool opened other (body opened).2 (body other).2

variable {permit : Permit} {pool wider : Pool} {first second opened other : Session}
    {body : SessionM BodyOutcome}

/-- What was there when an operation was begun is there after its region. -/
def Enlarges {β : Type} (begin_ : BuildM β) (session after : Session) : Prop :=
  ∀ {made opened}, attempt begin_ session = (.ok made, opened) →
    Grown opened.context after.context

/-- **Regions of both modes.** An operation with a region leads from paired sessions to paired
sessions, if its parts do, and closing the region restores all bindings. -/
theorem opening_proceeds {β : Type} {begin_ : BuildM β} {op : β → OpId} {block : β → BlockId}
    {enter : β → SessionM Unit} {leave : Session → BuildM Unit} {name : Option String}
    (begins : ∀ {made twin} {opened other : Session}, attempt begin_ first = (.ok made, opened) →
      attempt begin_ second = (.ok twin, other) →
      Module.Siblings opened.context.module other.context.module (op made) (op twin) ∧
        ∃ wider, Context.Forward permit pool first.context second.context opened.context
          other.context
          wider ∧ Paired permit wider opened other ∧
          Proceeds permit wider opened other (enter made (opened.inside (block made))).2
            (enter twin (other.inside (block twin))).2)
    (agrees : ∀ {made opened}, attempt begin_ first = (.ok made, opened) →
      Agrees permit body (enter made (opened.inside (block made))).2)
    (leaves : ∀ {wider done ended}, Paired permit wider done ended →
      Both (leave done) (leave ended) done.context ended.context fun _ _ after last =>
        Context.Forward permit wider done.context ended.context after last wider)
    (restored : ∀ {made opened}, attempt begin_ first = (.ok made, opened) → ∀ id,
      (runOpening begin_ op block enter leave name body first).2.context.binding? id =
        opened.context.binding? id)
    (alsoRestored : ∀ {made opened}, attempt begin_ second = (.ok made, opened) → ∀ id,
      (runOpening begin_ op block enter leave name body second).2.context.binding? id =
        opened.context.binding? id)
    (succeeds : Outcome.succeeds
      (runOpening begin_ op block enter leave name body first).1 = true)
    (alsoSucceeds : Outcome.succeeds
      (runOpening begin_ op block enter leave name body second).1 = true) :
    Proceeds permit pool first second (runOpening begin_ op block enter leave name body first).2
        (runOpening begin_ op block enter leave name body second).2 ∧
      Enlarges begin_ first (runOpening begin_ op block enter leave name body first).2 ∧
      Enlarges begin_ second (runOpening begin_ op block enter leave name body second).2 := by
  obtain ⟨made, opened, last, begun, ran, left, same⟩ := runOpening_succeeds succeeds
  obtain ⟨twin, other, done, alsoBegun, alsoRan, alsoLeft, alsoSame⟩ :=
    runOpening_succeeds alsoSucceeds
  obtain ⟨siblings, wider, start, paired, entering⟩ := begins begun alsoBegun
  have closed := restored begun
  have alsoClosed := alsoRestored alsoBegun
  rw [same, assign_context] at closed
  rw [alsoSame, assign_context] at alsoClosed
  rw [same, alsoSame]
  obtain ⟨widest, forward, inner⟩ := entering.trans fun _ _ inner =>
    agrees begun inner ran alsoRan
  have ended := leaves inner _ _ _ _ (attempt_eq_ok left) (attempt_eq_ok alsoLeft)
  have outer := paired.contexts.leave (forward.trans ended) closed alsoClosed
  have stepped := inner.step ended (attempt_vars left) (attempt_vars alsoLeft)
  have outside : Paired permit widest (last.leaving opened.context.mark)
      (done.leaving other.context.mark) :=
    ⟨outer.paired, stepped.vars, stepped.holds, stepped.rooted⟩
  refine ⟨⟨widest, start.trans ?_, outside.assign
    (.op (siblings.grow outer.left.module outer.right.module))
    (show widest.entity (.op _) from trivial) name⟩, fun known => ?_, fun known => ?_⟩
  · rw [assign_context, assign_context]
    exact outer
  · cases begun.symm.trans known
    rw [assign_context]
    exact outer.left
  · cases alsoBegun.symm.trans known
    rw [assign_context]
    exact outer.right

section Regions

variable {label : Label} (bodily : Bodily body) (paired : Paired permit pool first second)
include bodily paired

/-- Functions in both modes, over tensors without storage. -/
theorem function_proceeds {name : String} {args : List String} {result : Option String}
    (unstored : ∀ tensors, args.mapM first.vars.tensor = .ok tensors →
      BuildM.Unstored first.context tensors)
    (agrees : ∀ tensors op block opened, args.mapM first.vars.tensor = .ok tensors →
      attempt (BuildM.beginFunction name tensors) first = (.ok (op, block), opened) →
      Agrees permit body (opened.inside block))
    (succeeds : Outcome.succeeds (runFunction label name args result body first).1 = true)
    (alsoSucceeds : Outcome.succeeds (runFunction label name args result body second).1 = true) :
    Proceeds permit pool first second (runFunction label name args result body first).2
        (runFunction label name args result body second).2 ∧
      ∀ tensors, args.mapM first.vars.tensor = .ok tensors →
        Enlarges (BuildM.beginFunction name tensors) first
            (runFunction label name args result body first).2 ∧
          Enlarges (BuildM.beginFunction name tensors) second
            (runFunction label name args result body second).2 := by
  cases resolved : args.mapM first.vars.tensor with
  | error undefined =>
      rw [runFunction, get_bind_apply, resolved] at succeeds
      cases succeeds
  | ok tensors =>
      have also : args.mapM second.vars.tensor = .ok tensors := paired.vars.tensor_eq ▸ resolved
      have left := runFunction_opening label body name result resolved
      have right := runFunction_opening label body name result also
      have restored := (runFunction_settles bodily paired.holds paired.contexts.calm label name args
        result).2 tensors
      have alsoRestored := (runFunction_settles bodily paired.alsoHolds paired.contexts.alsoCalm
        label name args result).2 tensors
      rw [left] at succeeds restored ⊢
      rw [right] at alsoSucceeds alsoRestored ⊢
      refine And.imp_right (fun enlarges others known => ?_) (opening_proceeds ?_
        (fun begun => agrees _ _ _ _ resolved begun) ?_ (fun begun => restored _ _ _ resolved begun)
        (fun begun => alsoRestored _ _ _ also begun) succeeds alsoSucceeds)
      · cases known
        exact enlarges
      · intro made twin opened other begun alsoBegun
        obtain ⟨forward, same, small, siblings⟩ := BuildM.beginFunction_forward name paired.contexts
          (paired.holds.tensors resolved)
          (unstored tensors resolved) _ _ _ _ (attempt_eq_ok begun) (attempt_eq_ok alsoBegun)
        have opens := paired.step forward (attempt_vars begun) (attempt_vars alsoBegun)
        refine ⟨siblings, pool, forward, opens, ?_⟩
        rw [← same]
        exact opens.proceed (opens.contexts.enter small) rfl rfl
      · intro wider done ended paired
        rw [← paired.vars.expr_eq]
        refine BuildM.endFunction_forward paired.contexts fun expr found => ?_
        obtain ⟨name, -, known⟩ := Option.bind_eq_some_iff.mp found
        exact paired.holds.expr (Except.eq_ok_of_toOption known)

omit bodily in
/-- Both sessions enter the body of a loop, and bind and name its variable. -/
theorem enterLoop_proceeds {var : Expr} {header twin : BuildM.LoopHeader} {counter : Option String}
    (same : header.body = twin.body) (small : header.body.index < first.context.module.blocks.size)
    (member : pool.expr var) (plain : var.isAxis = false)
    (free : second.context.binding? var.id = none)
    (twins : Module.Twins first.context.module second.context.module header.counter twin.counter) :
    Proceeds permit pool first second (enterLoop counter (var, header) (first.inside header.body)).2
      (enterLoop counter (var, twin) (second.inside twin.body)).2 := by
  have entered := paired.contexts.enter small
  have bound := entered.paired.bind member plain free twins
  rw [← same]
  have inside : Paired permit pool (first.inside header.body) (second.inside header.body) :=
    paired.step entered rfl rfl
  have ready : Paired permit pool
      { first.inside header.body with
        context := (first.inside header.body).context.bind var.id (.value header.counter) }
      { second.inside header.body with
        context := (second.inside header.body).context.bind var.id (.value twin.counter) } :=
    inside.step bound rfl rfl
  refine ⟨pool, ?_, ready.assign (.expr var) member counter⟩
  have contexts : ∀ {session : Session} {header : BuildM.LoopHeader},
      (enterLoop counter (var, header) session).2.context =
        session.context.bind var.id (.value header.counter) :=
    fun {session header} => assign_context counter (.expr var) _
  rw [contexts, contexts]
  exact entered.trans bound

/-- Loops in both modes. -/
theorem loop_proceeds {counter : Option String} {lower upper : IndexTerm} {spec : BuildM.LoopSpec}
    (agrees : ∀ low high var header opened, first.vars.bound lower = .ok low →
      first.vars.bound upper = .ok high →
      attempt (BuildM.beginLoop low high spec) first = (.ok (var, header), opened) →
      Agrees permit body (opened.insideLoop header var counter))
    (succeeds : Outcome.succeeds (runLoop label counter lower upper spec body first).1 = true)
    (alsoSucceeds : Outcome.succeeds
      (runLoop label counter lower upper spec body second).1 = true) :
    Proceeds permit pool first second (runLoop label counter lower upper spec body first).2
      (runLoop label counter lower upper spec body second).2 := by
  cases resolved : (do return (← first.vars.bound lower, ← first.vars.bound upper) :
      Resolved (Bound × Bound)) with
  | error undefined =>
      rw [runLoop, get_bind_apply, resolved] at succeeds
      cases succeeds
  | ok bounds =>
      obtain ⟨low, high⟩ := bounds
      obtain ⟨lowFound, highFound⟩ := Except.pair_eq_ok resolved
      have alsoLow : second.vars.bound lower = .ok low := paired.vars.bound_eq ▸ lowFound
      have alsoHigh : second.vars.bound upper = .ok high := paired.vars.bound_eq ▸ highFound
      have left := runLoop_opening label body counter spec lowFound highFound
      have right := runLoop_opening label body counter spec alsoLow alsoHigh
      have restored := (runLoop_settles bodily paired.holds paired.contexts.calm label counter lower
        upper spec).2 low high
      have alsoRestored := (runLoop_settles bodily paired.alsoHolds paired.contexts.alsoCalm label
        counter lower upper spec).2 low high
      rw [left] at succeeds restored ⊢
      rw [right] at alsoSucceeds alsoRestored ⊢
      refine (opening_proceeds ?_ (fun begun => agrees _ _ _ _ _ lowFound highFound begun)
        (fun paired => BuildM.endBody_forward paired.contexts)
        (fun begun => restored _ _ _ lowFound highFound begun)
        (fun begun => alsoRestored _ _ _ alsoLow alsoHigh begun) succeeds alsoSucceeds).1
      intro made twin opened other begun alsoBegun
      obtain ⟨var, sameBody, wider, forward, member, plain, small, siblings, counters⟩ :=
        BuildM.beginLoop_forward paired.contexts (paired.holds.bound lowFound)
          (paired.holds.bound highFound) spec _ _ _ _ (attempt_eq_ok begun)
            (attempt_eq_ok alsoBegun)
      obtain ⟨-, free, -⟩ := attempt_ok (BuildM.beginLoop_calm paired.contexts.alsoCalm
        (paired.alsoHolds.bound alsoLow) (paired.alsoHolds.bound alsoHigh) spec) alsoBegun
      have opens := paired.step forward (attempt_vars begun) (attempt_vars alsoBegun)
      obtain ⟨var, header⟩ := made
      obtain ⟨_, twin⟩ := twin
      cases var
      exact ⟨siblings, wider, forward, opens,
        enterLoop_proceeds opens sameBody small member plain free counters⟩

/-- Conditionals in both modes. -/
theorem conditional_proceeds {condition : Operand}
    (agrees : ∀ operand op block opened, first.vars.operand condition = .ok operand →
      attempt (do BuildM.beginConditional (← operand)) first = (.ok (op, block), opened) →
      Agrees permit body (opened.inside block))
    (succeeds : Outcome.succeeds (runConditional label condition body first).1 = true)
    (alsoSucceeds : Outcome.succeeds (runConditional label condition body second).1 = true) :
    Proceeds permit pool first second (runConditional label condition body first).2
      (runConditional label condition body second).2 := by
  cases resolved : first.vars.operand condition with
  | error undefined =>
      rw [runConditional, get_bind_apply, resolved] at succeeds
      cases succeeds
  | ok operand =>
      have also : second.vars.operand condition = .ok operand := paired.vars.operand_eq ▸ resolved
      have left := runConditional_opening label body resolved
      have right := runConditional_opening label body also
      have restored := (runConditional_settles bodily paired.holds paired.contexts.calm label
        condition).2 operand
      have alsoRestored := (runConditional_settles bodily paired.alsoHolds paired.contexts.alsoCalm
        label condition).2 operand
      rw [left] at succeeds restored ⊢
      rw [right] at alsoSucceeds alsoRestored ⊢
      refine (opening_proceeds ?_ (fun begun => agrees _ _ _ _ resolved begun)
        (fun paired => BuildM.endBody_forward paired.contexts)
        (fun begun => restored _ _ _ resolved begun)
        (fun begun => alsoRestored _ _ _ also begun) succeeds alsoSucceeds).1
      intro made twin opened other begun alsoBegun
      have begins : Both (do BuildM.beginConditional (← operand))
          (do BuildM.beginConditional (← operand)) first.context second.context
          fun made other after last => ∃ wider,
            Context.Forward permit pool first.context second.context after last wider ∧
              made.2 = other.2 ∧ made.2.index < after.module.blocks.size ∧
              Module.Siblings after.module last.module made.1 other.1 := by
        rw [both_bind]
        refine ((paired.holds.operand resolved).concurs paired.contexts).mono ?_
        rintro expr _ middle between ⟨rfl, wider, forward, member⟩
        refine (BuildM.beginConditional_forward forward.paired member).mono ?_
        exact fun _ _ _ _ done => ⟨wider, forward.trans done.1, done.2⟩
      obtain ⟨wider, forward, same, small, siblings⟩ :=
        begins _ _ _ _ (attempt_eq_ok begun) (attempt_eq_ok alsoBegun)
      have opens := paired.step forward (attempt_vars begun) (attempt_vars alsoBegun)
      refine ⟨siblings, wider, forward, opens, ?_⟩
      rw [← same]
      exact opens.proceed (opens.contexts.enter small) rfl rfl

end Regions

/-! ## Scopes -/

section Scopes

variable {session : Session} {enter : Context → Context}

/-- The steps of a scope that has succeeded. -/
theorem runScoped_succeeds
    (succeeds : Outcome.succeeds (runScoped enter body session).1 = true) :
    BodyOutcome.succeeds (body { session with context := enter session.context }).1 = true ∧
      (runScoped enter body session).2 =
        { (body { session with context := enter session.context }).2 with
          context := (body { session with context := enter session.context }).2.context.truncate
            session.context.depth } := by
  have same : runScoped enter body session =
      ((.body (body { session with context := enter session.context }).1.1 none,
        (body { session with context := enter session.context }).1.2),
        { (body { session with context := enter session.context }).2 with
          context := (body { session with context := enter session.context }).2.context.truncate
            session.context.depth }) := rfl
  rw [same] at succeeds ⊢
  exact ⟨succeeds, rfl⟩

/-- Scopes in both modes. -/
theorem scoped_proceeds (enter alsoEnter : Context → Context)
    (paired : Paired permit pool first second)
    (enters : Context.Forward permit pool first.context second.context (enter first.context)
      (alsoEnter second.context) pool)
    (agrees : Agrees permit body { first with context := enter first.context })
    (succeeds : Outcome.succeeds (runScoped enter body first).1 = true)
    (alsoSucceeds : Outcome.succeeds (runScoped alsoEnter body second).1 = true) :
    Proceeds permit pool first second (runScoped enter body first).2
      (runScoped alsoEnter body second).2 := by
  obtain ⟨ran, same⟩ := runScoped_succeeds succeeds
  obtain ⟨alsoRan, alsoSame⟩ := runScoped_succeeds alsoSucceeds
  rw [same, alsoSame, ← paired.contexts.twinned.aligned.depth]
  have inner : Paired permit pool { first with context := enter first.context }
      { second with context := alsoEnter second.context } := paired.step enters rfl rfl
  obtain ⟨wider, forward, done⟩ := agrees inner ran alsoRan
  have left := done.contexts.truncate first.context.depth
  exact ⟨wider, (enters.trans forward).trans left, done.step left rfl rfl⟩

/-- Bodies at an anchored place, in both modes. -/
theorem withPoint_proceeds {ref : PointRef} (anchored : ref.anchored first = true)
    (paired : Paired permit pool first second)
    (agrees : ∀ point, first.resolvePoint ref = .ok point →
      Agrees permit body { first with context := first.context.savePoint point })
    (succeeds : Outcome.succeeds (runWithPoint ref body first).1 = true)
    (alsoSucceeds : Outcome.succeeds (runWithPoint ref body second).1 = true) :
    Proceeds permit pool first second (runWithPoint ref body first).2
      (runWithPoint ref body second).2 := by
  rw [runWithPoint, get_bind_apply] at succeeds alsoSucceeds
  rw [runWithPoint, get_bind_apply, get_bind_apply]
  cases resolved : first.resolvePoint ref with
  | error undefined =>
      rw [resolved] at succeeds
      cases succeeds
  | ok point =>
      cases also : second.resolvePoint ref with
      | error undefined =>
          rw [also] at alsoSucceeds
          cases alsoSucceeds
      | ok other =>
          rw [resolved] at succeeds
          rw [also] at alsoSucceeds
          have same := paired.resolvePoint_same anchored resolved also
          exact scoped_proceeds _ _ paired (paired.contexts.save same) (agrees _ resolved) succeeds
            alsoSucceeds

end Scopes

/-! ## Bodies -/

theorem Command.plain_of_prompt {label : Label} {asked : Command}
    (prompt : (Statement.command label asked).prompt = true)
    (quiet : (Statement.command label asked).isStore = false) : asked.isPlain = true := by
  rw [Statement.prompt] at prompt
  cases asked with
  | make recipe =>
      rw [Statement.isStore] at quiet
      rw [Command.isCall] at prompt
      rw [Command.isPlain, quiet, prompt]
      rfl
  | _ => rfl

/-- A store of a prompt body is built by the statement after it. -/
theorem built_of_promptly {statement : Statement} {rest : List Statement}
    (stores : statement.isStore = true) (promptly : statement.promptly rest = true) :
    ∃ label recipe next name others, statement = .command label (.make recipe) ∧
      recipe.isStore = true ∧ label.name = some name ∧
      rest = .command next (.build name) :: others := by
  unfold Statement.isStore at stores
  split at stores
  · rename_i label recipe
    simp only [Statement.promptly, Statement.isStore, stores, Bool.not_true,
      Bool.false_or] at promptly
    split at promptly
    · rename_i name following others named
      unfold Statement.buildsNamed at promptly
      split at promptly
      · rename_i next target
        cases eq_of_beq promptly
        exact ⟨label, recipe, next, name, others, rfl, stores, named, rfl⟩
      · cases promptly
    · cases promptly
  · cases stores

/-- A function leads from paired sessions to paired sessions if its body does. -/
theorem runFunction_proceeds {label : Label} {name : String} {args : List String}
    {result : Option String} {body : List Statement} (paired : Paired permit pool first second)
    (heeds : ∀ step ∈ steps (.function label name args result body) first, Heeds permit step)
    (agrees : ∀ {opened}, (∀ step ∈ stepsOfBody body opened, Heeds permit step) →
      Agrees permit (runBody body) opened)
    (succeeds : (runStatement (.function label name args result body) first).1.succeeds = true)
    (alsoSucceeds : (runStatement (.function label name args result body) second).1.succeeds =
      true) :
    Proceeds permit pool first second
        (runStatement (.function label name args result body) first).2
        (runStatement (.function label name args result body) second).2 ∧
      ∀ tensors, args.mapM first.vars.tensor = .ok tensors →
        Enlarges (BuildM.beginFunction name tensors) first
            (runStatement (.function label name args result body) first).2 ∧
          Enlarges (BuildM.beginFunction name tensors) second
            (runStatement (.function label name args result body) second).2 := by
  refine function_proceeds (runBody_settles body) paired ?_ ?_ succeeds alsoSucceeds
  · intro tensors resolved
    have heeded : Heeds permit (first, .function label name args result body) :=
      heeds _ (by rw [steps]; exact List.mem_cons_self)
    have once := heeded.once
    rw [HousesOnce, Statement.housed, resolved] at once
    exact once
  · intro tensors op block opened resolved begun
    refine agrees fun step listed => heeds step ?_
    rw [steps, resolved]
    dsimp only
    rw [begun]
    exact List.mem_cons_of_mem _ listed

mutual

/-- **Statements keep sessions paired.** A statement with a prompt body, which makes no store
itself, leads from paired sessions to paired sessions if it succeeds in both. -/
theorem runStatement_proceeds : ∀ (statement : Statement) {pool : Pool} {first second : Session},
    statement.prompt = true → statement.isStore = false →
    Paired permit pool first second → (∀ step ∈ steps statement first, Heeds permit step) →
    (runStatement statement first).1.succeeds = true →
    (runStatement statement second).1.succeeds = true →
    Proceeds permit pool first second (runStatement statement first).2
      (runStatement statement second).2
  | .command label asked, pool, first, second, prompt, quiet, paired, heeds, succeeds,
    alsoSucceeds => by
      have heeded : Heeds permit (first, .command label asked) := heeds _ List.mem_cons_self
      refine runCommand_proceeds (Command.plain_of_prompt prompt quiet) label.name paired
        heeded.loads ?_ ?_ succeeds alsoSucceeds
      · rintro target tensor rfl found
        have once := heeded.once
        rw [HousesOnce, Statement.housed, found] at once
        exact once.free tensor List.mem_cons_self
      · rintro ref rfl
        exact heeded.anchored ref List.mem_cons_self
  | .function label name args result body, pool, first, second, prompt, _, paired, heeds, succeeds,
    alsoSucceeds =>
      (runFunction_proceeds paired heeds (fun heeds _ _ paired =>
        runBody_proceeds body prompt paired heeds) succeeds alsoSucceeds).1
  | .loop label counter lower upper spec body, pool, first, second, prompt, _, paired, heeds,
    succeeds, alsoSucceeds => by
      refine loop_proceeds (runBody_settles body) paired ?_ succeeds alsoSucceeds
      intro low high var header opened lowFound highFound begun pool other paired
      refine runBody_proceeds body prompt paired fun step listed => heeds step ?_
      rw [steps, lowFound, highFound]
      dsimp only
      rw [begun]
      exact List.mem_cons_of_mem _ listed
  | .conditional label condition body, pool, first, second, prompt, _, paired, heeds, succeeds,
    alsoSucceeds => by
      refine conditional_proceeds (runBody_settles body) paired ?_ succeeds alsoSucceeds
      intro operand op block opened resolved begun pool other paired
      refine runBody_proceeds body prompt paired fun step listed => heeds step ?_
      rw [steps, resolved]
      dsimp only
      rw [begun]
      exact List.mem_cons_of_mem _ listed
  | .withPoint label ref body, pool, first, second, prompt, _, paired, heeds, succeeds,
    alsoSucceeds => by
      rw [Statement.prompt] at prompt
      have heeded : Heeds permit (first, .withPoint label ref body) :=
        heeds _ (by rw [steps]; exact List.mem_cons_self)
      refine withPoint_proceeds (heeded.anchored ref List.mem_cons_self) paired ?_ succeeds
        alsoSucceeds
      intro point resolved pool other paired
      refine runBody_proceeds body prompt paired fun step listed => heeds step ?_
      rw [steps, resolved]
      exact List.mem_cons_of_mem _ listed
  | .scoped label body, pool, first, second, prompt, _, paired, heeds, succeeds, alsoSucceeds => by
      refine scoped_proceeds (fun context => context) (fun context => context) paired
        (.refl paired.contexts) ?_ succeeds alsoSucceeds
      intro pool other paired
      refine runBody_proceeds body prompt paired fun step listed => heeds step ?_
      rw [steps]
      exact List.mem_cons_of_mem _ listed

/-- **Bodies keep sessions paired.** A prompt body that succeeds in both of two paired sessions,
and gives no tensor a second storage, leads to paired sessions. -/
theorem runBody_proceeds : ∀ (body : List Statement) {pool : Pool} {first second : Session},
    promptBody body = true → Paired permit pool first second →
    (∀ step ∈ stepsOfBody body first, Heeds permit step) →
    BodyOutcome.succeeds (runBody body first).1 = true →
    BodyOutcome.succeeds (runBody body second).1 = true →
    Proceeds permit pool first second (runBody body first).2 (runBody body second).2
  | [], _, _, _, _, paired, _, _, _ => .refl paired
  | statement :: rest, pool, first, second, prompt, paired, heeds, succeeds, alsoSucceeds => by
      rw [promptBody, Bool.and_eq_true, Bool.and_eq_true] at prompt
      obtain ⟨⟨self, promptly⟩, others⟩ := prompt
      obtain ⟨done, later, same⟩ := runBody_cons_succeeds succeeds
      obtain ⟨alsoDone, alsoLater, alsoSame⟩ := runBody_cons_succeeds alsoSucceeds
      rw [same, alsoSame]
      have after : ∀ step ∈ stepsOfBody rest (runStatement statement first).2, Heeds permit step :=
        fun step listed => heeds step (List.mem_append_right _ listed)
      cases stores : statement.isStore with
      | false =>
          exact (runStatement_proceeds statement self stores paired
            (fun step listed => heeds step (List.mem_append_left _ listed)) done alsoDone).trans
            fun _ _ paired => runBody_proceeds rest others paired after later alsoLater
      | true =>
          obtain ⟨label, recipe, next, name, beyond, rfl, made, named, rfl⟩ :=
            built_of_promptly stores promptly
          obtain ⟨built, further, ended⟩ := runBody_cons_succeeds later
          obtain ⟨alsoBuilt, alsoFurther, alsoEnded⟩ := runBody_cons_succeeds alsoLater
          rw [ended, alsoEnded]
          rw [promptBody, Bool.and_eq_true, Bool.and_eq_true] at others
          have stored : Proceeds permit pool first second
              (runCommand next.name (.build name) (runCommand label.name (.make recipe) first).2).2
              (runCommand next.name (.build name)
                (runCommand label.name (.make recipe) second).2).2 := by
            rw [named]
            have heeded : Heeds permit (first, .command label (.make recipe)) :=
              heeds _ (List.mem_append_left _ List.mem_cons_self)
            exact store_proceeds made paired heeded.stores (named ▸ done) (named ▸ alsoDone)
              (named ▸ built) (named ▸ alsoBuilt)
          exact stored.trans fun _ _ paired => runBody_proceeds beyond others.2 paired
            (fun step listed => after step (List.mem_append_right _ listed)) further alsoFurther

end

end Session

end AffineKernel
