import AffineKernel.Proofs.Build.Regions
import AffineKernel.Proofs.Script.Pool

/-!
# Where functions begin

A script begins a function in some session: it passes through that session, and
then through the body of the function (`Session.Begins`). Every function of its
module was begun so (`Passes.traced`), and what was bound at that time accounts
for what the script has built since: the operations since then use scalars that
were bound then, or that were made since.

The invariant is `Session.Traced`. Steps that make no function keep it because
the pool stays upheld, whatever the time one counts from (`Traced.step`); the
beginning of a function adds a new time to it (`Traced.beginFunction`).
-/

set_option autoImplicit false

namespace AffineKernel

namespace BuildM

open Context

variable {context : Context}

/-- The arguments of a function are bound without a failure, and nothing is created for them. -/
theorem bindArgs_creates {block : BlockId} : ∀ (tensors : List Tensor) (position : Nat)
    {context : Context}, Ensures (bindArgs block position tensors) context
      (fun _ after => after.module = context.module) fun _ => False
  | [], _, _ => rfl
  | tensor :: rest, position, context => by
      rw [bindArgs, ensures_bind, ensures_modify]
      exact (bindArgs_creates rest (position + 1)).mono (fun _ _ same => same) fun _ failed => failed

/-- The draft of a function. -/
def functionDraft (name : String) (args : List Tensor) : OpDraft where
  kind := .func
  attributes := [("sym_name", .str name)]
  regions := [args.map fun tensor => .memref tensor.shape tensor.dtype]

/-- The beginning of a function creates one operation, or nothing if there is no place for it. -/
theorem beginFunction_creates (name : String) (args : List Tensor) :
    Ensures (beginFunction name args) context
      (fun made after => made.1 = ⟨context.module.ops.size⟩ ∧
        ∃ point, after.module = (context.module.create (functionDraft name args) point).2)
      fun after => after = context := by
  simp only [beginFunction, createRegion, ensures_bind, ensures_get, ensures_pure, ensures_emit]
  refine ensures_create (fun point rest stack => ?_) fun _ => rfl
  refine (bindArgs_creates args 0).mono (fun _ after same => ⟨rfl, point, ?_⟩) fun _ => False.elim
  exact same

end BuildM

namespace Session

variable {session after : Session} {base : Pool} {began : Session → OpId → Prop}

/-- Running statements begins a function: they pass through `start`, and then through the body of a
function that is begun there. -/
def Begins (statements : List Statement) (session start : Session) (id : OpId) : Prop :=
  Passes statements session start ∧ ∃ name tensors block opened,
    attempt (BuildM.beginFunction name tensors) start = (.ok (id, block), opened) ∧
      Passes statements session (opened.inside block)

theorem Begins.mono {inner outer : List Statement} {later start : Session} {id : OpId}
    (begins : Begins inner later start id)
    (passes : ∀ {moment : Session}, Passes inner later moment → Passes outer session moment) :
    Begins outer session start id := by
  obtain ⟨here, name, tensors, block, opened, ran, inside⟩ := begins
  exact ⟨passes here, name, tensors, block, opened, ran, passes inside⟩

/-- The session is within a pool that has all of `base`, and within some pool if one counts from the
beginning of a function. -/
structure Traced (base : Pool) (began : Session → OpId → Prop) (session : Session) : Prop where
  within : ∃ pool, base.Le pool ∧ session.Within .origin pool
  functions : ∀ {id : OpId} {op : Operation}, session.context.module.op? id = some op →
    op.kind = .func → ∃ start, began start id ∧ id = ⟨start.context.module.ops.size⟩ ∧
      op.regions = [⟨start.context.module.blocks.size⟩] ∧
      ∃ pool, session.Within start.context.now.relax pool

namespace Traced

/-- The pool of a session is one that the pools to come have all of. -/
theorem rebase (traced : session.Traced base began) :
    ∃ pool, session.Within .origin pool ∧ session.Traced pool began := by
  obtain ⟨pool, -, within⟩ := traced.within
  exact ⟨pool, within, ⟨pool, .refl pool, within⟩, traced.functions⟩

theorem step (traced : session.Traced base began) (widens : Widens session after) :
    after.Traced base began := by
  obtain ⟨pool, le, within⟩ := traced.within
  obtain ⟨wider, further, widened⟩ := widens _ _ within
  refine ⟨⟨wider, le.trans further, widened⟩, fun {id op} found kind => ?_⟩
  -- Counting from now on there are no more functions.
  obtain ⟨_, -, since⟩ := widens _ _ ⟨within.upholds.renew, within.holds⟩
  have old : session.context.module.op? id = some op := since.upholds.regular.functions found kind
  obtain ⟨start, begun, same, regions, earlier, inside⟩ := traced.functions old kind
  obtain ⟨later, -, kept⟩ := widens _ _ inside
  exact ⟨start, begun, same, regions, later, kept⟩

/-- A function over tensors that variables hold is begun, or fails to. -/
theorem beginFunction {args : List String} {tensors : List Tensor} {name : String}
    {result : Except BuildError (OpId × BlockId)} {opened : Session}
    (traced : session.Traced base began) (resolved : args.mapM session.vars.tensor = .ok tensors)
    (ran : attempt (BuildM.beginFunction name tensors) session = (result, opened))
    (begins : ∀ id block, result = .ok (id, block) → began session id) : opened.Traced base began := by
  have vars := attempt_vars ran
  cases result with
  | error error =>
      have same := attempt_error (BuildM.beginFunction_creates name tensors) ran
      exact traced.step (.of_upholds vars fun _ _ upholds => same ▸ upholds)
  | ok made =>
      obtain ⟨id, block⟩ := made
      have upheld : ∀ {epoch : Epoch} {pool : Pool}, epoch.Relaxed → session.Within epoch pool →
          opened.Within epoch pool := by
        intro epoch pool relaxed within
        have members := within.holds.tensors resolved
        have types := BuildM.beginFunction_types relaxed name members _ within.upholds (.refl _)
        exact ⟨(attempt_ok types ran).1, vars ▸ within.holds⟩
      obtain ⟨pool, le, within⟩ := traced.within
      refine ⟨⟨pool, le, upheld Epoch.relaxed_origin within⟩, fun {other op} found kind => ?_⟩
      obtain ⟨same, point, module⟩ := attempt_ok (BuildM.beginFunction_creates name tensors) ran
      rw [module] at found
      rcases Module.op?_of_op?_create found with rfl | old
      · obtain rfl := Option.some.inj (Module.op?_create_self.symm.trans found)
        have now : session.Within session.context.now.relax pool :=
          ⟨within.upholds.renew.relax, within.holds⟩
        exact ⟨session, same ▸ begins id block rfl, rfl, rfl, pool,
          upheld (Epoch.relaxed_relax _) now⟩
      · obtain ⟨start, begun, same, regions, earlier, inside⟩ := traced.functions old kind
        exact ⟨start, begun, same, regions, earlier, upheld (Epoch.relaxed_relax _) inside⟩

/-- A function is begun, and its body is entered. -/
theorem insideFunction {args : List String} {tensors : List Tensor} {name : String} {id : OpId}
    {block : BlockId} {opened : Session} (traced : session.Traced base began)
    (resolved : args.mapM session.vars.tensor = .ok tensors)
    (ran : attempt (BuildM.beginFunction name tensors) session = (.ok (id, block), opened))
    (begins : began session id) : (opened.inside block).Traced base began := by
  have begun : opened.Traced base began := by
    refine traced.beginFunction resolved ran ?_
    rintro _ _ ⟨⟩
    exact begins
  exact begun.step (inside_widens block opened)

end Traced

/-! ## Regions -/

section Regions

variable {block : BlockId} {enter : SessionM Unit} {body : SessionM BodyOutcome}
  {leave : Session → BuildM Unit}

/-- After the body of a region the region is left. -/
theorem runRegion_traced (ran : (body (enter (session.inside block)).2).2.Traced base began)
    (leaves : ∀ {pool : Pool} (seen : Session), pool.Holds seen.vars →
      BuildM.Makes pool (leave seen) fun _ _ => True) :
    (runRegion block enter body leave session).2.Traced base began := by
  rw [runRegion_apply]
  rcases outcome : body (enter (session.inside block)).2 with ⟨⟨records, failure⟩, done⟩
  rw [outcome] at ran
  cases failure with
  | some error => exact ran.step (leaving_widens _ done)
  | none =>
      have ended := ran.step (attempt_widens fun holds => leaves done holds)
      rcases closed : attempt (leave done) done with ⟨result, last⟩
      rw [closed] at ended
      cases result with
      | ok _ =>
          rw [closeRegion_ok closed]
          exact ended.step (leaving_widens _ last)
      | error error =>
          rw [closeRegion_error closed]
          exact ended.step (leaving_widens _ last)

/-- A region and the report on it. -/
theorem runRegion_report_traced {name : Option String} {op : OpId}
    (ran : (body (enter (session.inside block)).2).2.Traced base began)
    (leaves : ∀ {pool : Pool} (seen : Session), pool.Holds seen.vars →
      BuildM.Makes pool (leave seen) fun _ _ => True) :
    ((runRegion block enter body leave >>= reportRegion name op) session).2.Traced base began := by
  rw [bind_apply]
  exact (runRegion_traced ran leaves).step (reportRegion_widens name op _ _)

theorem runFunction_traced (label : Label) (name : String) (args : List String)
    (result : Option String) (traced : session.Traced base began)
    (begins : ∀ tensors id block opened, args.mapM session.vars.tensor = .ok tensors →
      attempt (BuildM.beginFunction name tensors) session = (.ok (id, block), opened) →
      began session id ∧
        ((opened.inside block).Traced base began → (body (opened.inside block)).2.Traced base began)) :
    (runFunction label name args result body session).2.Traced base began := by
  cases resolved : args.mapM session.vars.tensor with
  | error undefined =>
      rw [runFunction, get_bind_apply, resolved]
      exact traced
  | ok tensors =>
      rw [runFunction_apply resolved, bind_apply]
      rcases ran : attempt (BuildM.beginFunction name tensors) session with ⟨made, opened⟩
      have begun : opened.Traced base began := by
        refine traced.beginFunction resolved ran fun id block same => ?_
        subst same
        exact (begins tensors id block opened resolved ran).1
      cases made with
      | error error => exact begun
      | ok made =>
          obtain ⟨id, block⟩ := made
          have bodies := (begins tensors id block opened resolved ran).2
          refine runRegion_report_traced (bodies (begun.step (inside_widens _ _)))
            fun seen holds => BuildM.Makes.of_types fun sound => BuildM.endFunction_types sound ?_
          intro expr found
          obtain ⟨name, -, known⟩ := Option.bind_eq_some_iff.mp found
          exact holds.expr (Except.eq_ok_of_toOption known)

theorem runLoop_traced (label : Label) (counter : Option String) (lower upper : IndexTerm)
    (spec : BuildM.LoopSpec) (traced : session.Traced base began)
    (bodies : ∀ low high var header opened, session.vars.bound lower = .ok low →
      session.vars.bound upper = .ok high →
      attempt (BuildM.beginLoop low high spec) session = (.ok (var, header), opened) →
      (opened.insideLoop header var counter).Traced base began →
      (body (opened.insideLoop header var counter)).2.Traced base began) :
    (runLoop label counter lower upper spec body session).2.Traced base began := by
  rw [runLoop, get_bind_apply]
  cases resolved : (do return (← session.vars.bound lower, ← session.vars.bound upper) :
    Resolved (Bound × Bound)) with
  | error undefined => exact traced
  | ok bounds =>
      obtain ⟨low, high⟩ := bounds
      obtain ⟨lowFound, highFound⟩ := Except.pair_eq_ok resolved
      dsimp only
      rw [bind_apply]
      rcases ran : attempt (BuildM.beginLoop low high spec) session with ⟨made, opened⟩
      cases made with
      | error error =>
          refine traced.step fun epoch pool within => ?_
          obtain ⟨wider, le, upheld⟩ :=
            attempt_error (BuildM.beginLoop_makes within.upholds (within.holds.bound lowFound)
              (within.holds.bound highFound) spec) ran
          exact ⟨wider, le, ⟨upheld, attempt_vars ran ▸ le.holds within.holds⟩⟩
      | ok made =>
          obtain ⟨var, header⟩ := made
          have entered := traced.step (insideLoop_widens lowFound highFound ran counter)
          exact runRegion_report_traced
            (bodies low high var header opened lowFound highFound ran entered)
            fun _ _ => BuildM.Makes.of_types fun _ => BuildM.emitYield_types

/-- A conditional is begun, and its body is entered. -/
theorem Traced.insideConditional {condition : Operand} {operand : BuildM Expr} {op : OpId}
    {opened : Session} (traced : session.Traced base began)
    (resolved : session.vars.operand condition = .ok operand)
    (ran : attempt (do BuildM.beginConditional (← operand)) session = (.ok (op, block), opened)) :
    (opened.inside block).Traced base began := by
  have begun := attempt_widens fun holds => beginConditional_makes resolved holds
  rw [ran] at begun
  exact traced.step (begun.trans (inside_widens block opened))

theorem runConditional_traced (label : Label) (condition : Operand) (traced : session.Traced base began)
    (bodies : ∀ operand id block opened, session.vars.operand condition = .ok operand →
      attempt (do BuildM.beginConditional (← operand)) session = (.ok (id, block), opened) →
      (opened.inside block).Traced base began → (body (opened.inside block)).2.Traced base began) :
    (runConditional label condition body session).2.Traced base began := by
  rw [runConditional, get_bind_apply]
  cases resolved : session.vars.operand condition with
  | error undefined => exact traced
  | ok operand =>
      dsimp only
      rw [bind_apply]
      have begun := attempt_widens fun holds => beginConditional_makes resolved holds
      rcases ran : attempt (do BuildM.beginConditional (← operand)) session with ⟨made, opened⟩
      rw [ran] at begun
      cases made with
      | error error => exact traced.step begun
      | ok made =>
          obtain ⟨id, block⟩ := made
          exact runRegion_report_traced
            (bodies operand id block opened resolved ran (traced.insideConditional resolved ran))
            fun _ _ => BuildM.Makes.of_types fun _ => BuildM.emitYield_types

theorem runScoped_traced {entering : Context → Context}
    (ran : (body { session with context := entering session.context }).2.Traced base began) :
    (runScoped entering body session).2.Traced base began :=
  ran.step (.of_eq rfl rfl rfl rfl rfl)

end Regions

/-! ## Statements -/

mutual

/-- A statement leaves a session traced, whether it fails or not. -/
theorem runStatement_traced : ∀ (statement : Statement) {rest : List Statement} {session : Session},
    (∀ start id, Begins (statement :: rest) session start id → began start id) →
    session.Traced base began → (runStatement statement session).2.Traced base began
  | .command label command, _, session, _, traced =>
      traced.step (runCommand_widens label.name command session)
  | .function label name args result body, _, session, begins, traced => by
      refine runFunction_traced label name args result traced fun tensors id block opened found ran =>
        ⟨begins session id ⟨.here, name, tensors, block, opened, ran, .function found ran .here⟩, ?_⟩
      exact runBody_traced body fun start other inside =>
        begins start other (inside.mono (.function found ran))
  | .loop label counter lower upper spec body, _, session, begins, traced => by
      refine runLoop_traced label counter lower upper spec traced
        fun low high var header opened lowFound highFound ran => ?_
      exact runBody_traced body fun start other inside =>
        begins start other (inside.mono (.loop lowFound highFound ran))
  | .conditional label condition body, _, session, begins, traced => by
      refine runConditional_traced label condition traced fun operand id block opened found ran => ?_
      exact runBody_traced body fun start other inside =>
        begins start other (inside.mono (.conditional found ran))
  | .withPoint label ref body, _, session, begins, traced => by
      change Traced base began (Prod.snd ((match session.resolvePoint ref with
        | .error undefined => pure (.undefined undefined, none)
        | .ok point => runScoped (·.savePoint point) (runBody body) : SessionM Outcome) session))
      cases found : session.resolvePoint ref with
      | error undefined => exact traced
      | ok point =>
          refine runScoped_traced (runBody_traced body (fun start other inside =>
            begins start other (inside.mono (.point found))) ?_)
          exact traced.step (.of_eq rfl rfl rfl rfl rfl)
  | .scoped label body, _, session, begins, traced => by
      change Traced base began (runScoped (fun context => context) (runBody body) session).2
      exact runScoped_traced (runBody_traced body (fun start other inside =>
        begins start other (inside.mono .within)) traced)

/-- So does a body. -/
theorem runBody_traced : ∀ (statements : List Statement) {session : Session},
    (∀ start id, Begins statements session start id → began start id) →
    session.Traced base began → (runBody statements session).2.Traced base began
  | [], _, _, traced => traced
  | statement :: rest, session, begins, traced => by
      have first := runStatement_traced statement begins traced
      have others := runBody_traced rest fun start other later =>
        begins start other (later.mono .later)
      rw [runBody, bind_apply]
      cases (runStatement statement session).1.failure with
      | none => exact others first
      | some error =>
          cases statement.label.caught with
          | false => exact first
          | true => exact others first

end

/-- At every moment that a script passes, the session is traced. -/
theorem Passes.traced {statements : List Statement} {moment : Session}
    (passes : Passes statements session moment)
    (begins : ∀ start id, Begins statements session start id → began start id)
    (traced : session.Traced base began) : moment.Traced base began := by
  induction passes with
  | here => exact traced
  | @later statement rest session moment _ ih =>
      exact ih (fun start other later => begins start other (later.mono .later))
        (runStatement_traced statement begins traced)
  | @function label name args result body rest session opened moment tensors id block resolved ran _
      ih =>
      have begun := begins session id
        ⟨.here, name, tensors, block, opened, ran, .function resolved ran .here⟩
      exact ih (fun start other inside => begins start other (inside.mono (.function resolved ran)))
        (traced.insideFunction resolved ran begun)
  | loop lowFound highFound ran _ ih =>
      exact ih
        (fun start other inside => begins start other (inside.mono (.loop lowFound highFound ran)))
        (traced.step (insideLoop_widens lowFound highFound ran _))
  | conditional resolved ran _ ih =>
      exact ih
        (fun start other inside => begins start other (inside.mono (.conditional resolved ran)))
        (traced.insideConditional resolved ran)
  | within _ ih => exact ih (fun start other inside => begins start other (inside.mono .within)) traced
  | point resolved _ ih =>
      exact ih (fun start other inside => begins start other (inside.mono (.point resolved)))
        (traced.step (.of_eq rfl rfl rfl rfl rfl))

/-- The statements of a script pass through their end. -/
theorem runAll_passes (statements : List Statement) (session : Session) :
    Passes statements session (runAll statements session).2 := by
  induction statements generalizing session with
  | nil => exact .here
  | cons statement rest ih =>
      rw [runAll, bind_apply, bind_apply]
      exact .later (ih _)

end Session

end AffineKernel
