import AffineKernel.Proofs.Build.Sharing
import AffineKernel.Proofs.Script.Bindings

/-!
# Invariants of bindings

Between two statements of a script contexts are calm, and more may be known of
what is bound in them. What is known endures (`BuildM.Endures`) if it is told by
the bindings alone, if a run over nodes keeps it, and if the variable of a new
loop may be bound to the counter. Then all that constructors and builds do keeps
it (`Endures.tracks`), and it holds at every moment of a script
(`Session.Passes.retains`): the regions of functions, loops and conditionals give
back the bindings that were there when they were opened.

On the way to such a moment no binding is lost.
-/

set_option autoImplicit false

namespace AffineKernel

/-- In calm contexts no axis is bound. -/
theorem Context.Calm.unswept {pool : Pool} {context : Context} (calm : context.Calm pool) :
    context.Unswept pool := by
  intro id axis
  rw [isBound, calm.axis_free axis]
  rfl

namespace BuildM

open Context

variable {α : Type} {pool : Pool} {context : Context} {inv : Pool → Context → Prop}

/-- Something known of the bindings of calm contexts, that a run of building and the variable of a
new loop keep. -/
structure Endures (inv : Pool → Context → Prop) : Prop where
  calm : ∀ {pool : Pool} {context : Context}, inv pool context → context.Calm pool
  /-- It is told by the bindings, also within a wider pool. -/
  same : ∀ {pool wider : Pool} {before after : Context}, inv pool before → pool.Le wider →
    after.Calm wider → (∀ id, after.binding? id = before.binding? id) → inv wider after
  runs : ∀ {pool : Pool} {before after : Context} {made : List (Expr × List OpId)},
    inv pool before → Runs before made after → (∀ entry ∈ made, pool.expr entry.1) →
    after.Calm pool → inv pool after
  counter : ∀ {pool : Pool} {context : Context} {id : NodeId} {name : String} (value : Value),
    inv pool context → pool.expr (.loopVar id name) → context.binding? id = none →
    (context.bind id (.value value)).Calm pool → inv pool (context.bind id (.value value))

namespace Endures

variable (endures : Endures inv)
include endures

/-- What binds nothing and frees no identity keeps what is known. -/
theorem ensures_quiet {action : BuildM α} (kept : inv pool context) (quiet : Keeps Quiet action)
    (later : Keeps Later action) :
    Ensures action context (fun _ after => Stays context after ∧ inv pool after)
      (fun after => Stays context after ∧ inv pool after) := by
  have step : ∀ after : Context, (Extends context after ∧ after.Calm pool) ∧ Quiet context after →
      Stays context after ∧ inv pool after := by
    rintro after ⟨⟨-, calm⟩, quiet⟩
    exact ⟨.of_same quiet.binding?, endures.same kept (.refl _) calm quiet.binding?⟩
  exact ((ensures_calm_of_quiet (endures.calm kept) quiet later).and (quiet context)).mono
    (fun _ after => step after) step

/-- Constructing and building nodes keeps what is known, and no binding is lost. -/
theorem tracks : Tracks inv Stays where
  chains := Stays.chains
  still still kept := by
    have quiet : Quiet _ _ := ⟨still.bindings, still.regionNodes, still.regions⟩
    exact ⟨.of_same quiet.binding?, endures.same kept (.refl _)
      (calm_tracks.still still (endures.calm kept)).2 quiet.binding?⟩
  insert fresh accepts kept :=
    ⟨.of_same fun _ => rfl, endures.same kept (Pool.le_insert _ _)
      (calm_tracks.insert fresh accepts (endures.calm kept)).2 fun _ => rfl⟩
  insertTensor fresh kept :=
    ⟨.of_same fun _ => rfl, endures.same kept (Pool.le_insertTensor _ _)
      (calm_tracks.insertTensor fresh (endures.calm kept)).2 fun _ => rfl⟩
  build := by
    intro pool context expr member kept
    have calm := endures.calm kept
    have members : ∀ {made : List (Expr × List OpId)}, (∀ entry ∈ made, expr.Reaches entry.1) →
        ∀ entry ∈ made, pool.expr entry.1 :=
      fun reached entry listed => calm.sound.reaches member (reached entry listed)
    refine ((calm_tracks.build member calm).and
      (build_runs calm.sound expr member context calm.unswept)).mono ?_ ?_
    · rintro binding after ⟨⟨-, calm⟩, -, made, runs, reached⟩
      exact ⟨runs.stays, endures.runs kept runs (members reached) calm⟩
    · rintro after ⟨⟨-, done⟩, made, middle, runs, spares, reached⟩
      have inner : middle.Calm pool := ⟨calm.sound.mono runs.emits.nextId_le,
        fun id binding found => done.plain id binding ((spares.bindings id).trans found)⟩
      exact ⟨Stays.chains.trans runs.stays (.of_same spares.bindings),
        endures.same (endures.runs kept runs (members reached) inner) (.refl _) done
          spares.bindings⟩
  allocTensor {_ _ tensor} _ kept :=
    endures.ensures_quiet kept (allocTensor_quiet tensor) (allocTensor_later tensor)

/-- An action over the nodes of a pool that binds nothing. -/
theorem follows_of_quiet {action : BuildM α} (quiet : Keeps Quiet action)
    (later : Keeps Later action) : Follows inv Stays pool action fun _ _ => True :=
  .of_ensures fun _ kept => endures.ensures_quiet kept quiet later

theorem buildBound {bound : Bound} (members : ∀ expr ∈ bound.exprs, pool.expr expr) :
    Follows inv Stays pool (BuildM.buildBound bound) fun _ _ => True := by
  have tracks := endures.tracks
  cases bound with
  | const value => exact tracks.pure trivial
  | expr value =>
      refine tracks.bind (endures.follows_of_quiet (Quiet.chains.valueType value)
        (later_chains.valueType value)) fun dtype wider le _ => ?_
      dsimp only
      split
      · exact tracks.throw _
      have member := le.expr (members value (by simp [Bound.exprs]))
      refine tracks.bind (tracks.builds member) fun binding _ _ _ => ?_
      refine tracks.bind (tracks.needValue _ binding) fun built _ _ _ => ?_
      refine tracks.bind (endures.follows_of_quiet (quiet_creations.emitCast _ _ _)
        (later_of_emits (emits_steps.emitCast _ _ _))) fun _ _ _ _ => ?_
      exact tracks.pure trivial

/-- A new loop with its variable. -/
theorem beginLoop {lower upper : Bound} (low : ∀ expr ∈ lower.exprs, pool.expr expr)
    (high : ∀ expr ∈ upper.exprs, pool.expr expr) (spec : LoopSpec) :
    Follows inv Stays pool (BuildM.beginLoop lower upper spec)
      fun wider made => wider.expr made.1 ∧ ∃ id name, made.1 = .loopVar id name := by
  intro context kept
  have tracks := endures.tracks
  have accepts : pool.Accepts (.loopVar context.nextId (spec.name.getD "")) :=
    ⟨by simp [Expr.operands], by simp [Expr.bounds], trivial, by simp [Expr.tensor?]⟩
  obtain ⟨step, grown⟩ := tracks.insert rfl accepts kept
  have le := pool.le_insert (.loopVar context.nextId (spec.name.getD ""))
  rw [BuildM.beginLoop, ensures_bind, ensures_freshId]
  refine tracks.after step le grown ?_
  refine tracks.bind (endures.buildBound fun expr listed => le.expr (low expr listed))
    fun first wider up _ => ?_
  refine tracks.bind (endures.buildBound fun expr listed =>
    up.expr (le.expr (high expr listed))) fun second widest further _ => ?_
  have looped : Keeps Later (emitLoop first second spec) := fun context =>
    (emitLoop_emits _ _ _ context).mono (fun _ _ made => made.1.nextId_le) fun _ emits =>
      emits.nextId_le
  refine tracks.bind (endures.follows_of_quiet (emitLoop_quiet _ _ _) looped)
    fun header last ending _ => ?_
  exact tracks.pure ⟨ending.expr (further.expr (up.expr (.inr rfl))), _, _, rfl⟩

end Endures

end BuildM

/-! ## Statements -/

namespace Session

open Context

variable {inv : Pool → Context → Prop} {pool : Pool} {session opened after : Session}

/-- A step that keeps what is known and loses no binding. -/
abbrev Retains (inv : Pool → Context → Prop) (pool : Pool) (session after : Session) : Prop :=
  Moves inv Stays pool session after

section Steps

variable (endures : BuildM.Endures inv)
include endures

/-- Entering a region does not concern the bindings. -/
theorem inside_endures (kept : inv pool opened.context) (block : BlockId) :
    inv pool (opened.inside block).context :=
  endures.same kept (.refl _) (inside_calm (endures.calm kept) block).2 fun _ => rfl

/-- A function is begun, or fails to be. -/
theorem beginFunction_retains {name : String} {tensors : List Tensor}
    {result : Except BuildError (OpId × BlockId)} (holds : pool.Holds session.vars)
    (kept : inv pool session.context)
    (ran : attempt (BuildM.beginFunction name tensors) session = (result, opened)) :
    Retains inv pool session opened := by
  have begun := attempt_moves holds kept (endures.follows_of_quiet
    (BuildM.beginFunction_quiet name tensors) (BuildM.beginFunction_later name tensors))
  rwa [ran] at begun

/-- A conditional is begun, or fails to be. -/
theorem beginConditional_retains {condition : Operand} {operand : BuildM Expr}
    {result : Except BuildError (OpId × BlockId)} (holds : pool.Holds session.vars)
    (kept : inv pool session.context) (resolved : session.vars.operand condition = .ok operand)
    (ran : attempt (do BuildM.beginConditional (← operand)) session = (result, opened)) :
    Retains inv pool session opened := by
  have begun := attempt_moves holds kept
    (endures.tracks.bind (endures.tracks.free (holds.operand resolved)) fun _ _ _ member =>
      endures.tracks.beginConditional endures.follows_of_quiet member)
  rwa [ran] at begun

/-- The variable of a loop is bound in the body. -/
theorem insideLoop_retains {lower upper : IndexTerm} {low high : Bound} {spec : BuildM.LoopSpec}
    {var : Expr} {header : BuildM.LoopHeader} (counter : Option String)
    (holds : pool.Holds session.vars) (kept : inv pool session.context)
    (lowFound : session.vars.bound lower = .ok low)
    (highFound : session.vars.bound upper = .ok high)
    (ran : attempt (BuildM.beginLoop low high spec) session = (.ok (var, header), opened)) :
    ∃ wider : Pool, pool.Le wider ∧ Stays session.context opened.context ∧
      inv wider opened.context ∧
      Extends opened.context.enterRegion (opened.insideLoop header var counter).context ∧
      Stays opened.context (opened.insideLoop header var counter).context ∧
      inv wider (opened.insideLoop header var counter).context ∧
      wider.Holds (opened.insideLoop header var counter).vars := by
  obtain ⟨-, unbound, plain, -⟩ := attempt_ok (BuildM.beginLoop_calm (endures.calm kept)
    (holds.bound lowFound) (holds.bound highFound) spec) ran
  obtain ⟨step, wider, le, begun, held, member, id, name, rfl⟩ := attempt_follows holds kept
    (endures.beginLoop (holds.bound lowFound) (holds.bound highFound) spec) ran
  obtain ⟨entered, calm, inner⟩ :=
    insideLoop_calm header counter (endures.calm begun) held unbound member plain
  refine ⟨wider, le, step, begun, entered, ?_, ?_, inner⟩
  · intro other binding found
    rw [insideLoop_context, binding?_bind, if_neg]
    · exact found
    · rintro rfl
      rw [unbound] at found
      cases found
  · rw [insideLoop_context] at calm ⊢
    exact endures.counter _ (inside_endures endures begun header.body) member unbound calm

section Regions

variable {block : BlockId} {enter : SessionM Unit} {body : SessionM BodyOutcome}
  {leave : Session → BuildM Unit}

/-- After a region the bindings are those from its beginning. -/
theorem runRegion_report_retains (name : Option String) (op : OpId) (bodies : Bodily body)
    (kept : inv pool session.context)
    (entered : Extends session.context.enterRegion (enter (session.inside block)).2.context)
    (calm : (enter (session.inside block)).2.context.Calm pool)
    (holds : pool.Holds (enter (session.inside block)).2.vars)
    (leaves : ∀ (pool : Pool) (seen : Session), pool.Holds seen.vars →
      BuildM.Calms pool (leave seen)) :
    Retains inv pool session
      ((runRegion block enter body leave >>= reportRegion name op) session).2 := by
  obtain ⟨⟨-, wider, le, done, held⟩, restored⟩ :=
    runRegion_report_restores name op bodies entered calm holds leaves
  exact ⟨.of_same restored, wider, le, endures.same kept le done restored, held⟩

variable (bodies : Bodily body) (holds : pool.Holds session.vars) (kept : inv pool session.context)
include bodies holds kept

theorem runFunction_retains (label : Label) (name : String) (args : List String)
    (result : Option String) :
    Retains inv pool session (runFunction label name args result body session).2 := by
  cases resolved : args.mapM session.vars.tensor with
  | error undefined =>
      rw [runFunction, get_bind_apply, resolved]
      exact .refl endures.tracks holds kept
  | ok tensors =>
      rw [runFunction_apply resolved, bind_apply]
      rcases ran : attempt (BuildM.beginFunction name tensors) session with ⟨made, opened⟩
      have begun := beginFunction_retains endures holds kept ran
      cases made with
      | error error => exact begun
      | ok made =>
          obtain ⟨op, block⟩ := made
          obtain ⟨step, wider, le, kept, held⟩ := begun
          obtain ⟨entered, inner⟩ := inside_calm (endures.calm kept) block
          refine .after_step Stays.chains step le (runRegion_report_retains endures label.name op
            bodies kept entered inner held fun pool seen holds =>
              BuildM.endFunction_calms fun expr found => ?_)
          obtain ⟨name, -, known⟩ := Option.bind_eq_some_iff.mp found
          exact holds.expr (Except.eq_ok_of_toOption known)

theorem runConditional_retains (label : Label) (condition : Operand) :
    Retains inv pool session (runConditional label condition body session).2 := by
  rw [runConditional, get_bind_apply]
  cases resolved : session.vars.operand condition with
  | error undefined => exact .refl endures.tracks holds kept
  | ok operand =>
      dsimp only
      rw [bind_apply]
      rcases ran : attempt (do BuildM.beginConditional (← operand)) session with ⟨made, opened⟩
      have begun := beginConditional_retains endures holds kept resolved ran
      cases made with
      | error error => exact begun
      | ok made =>
          obtain ⟨op, block⟩ := made
          obtain ⟨step, wider, le, kept, held⟩ := begun
          obtain ⟨entered, inner⟩ := inside_calm (endures.calm kept) block
          exact .after_step Stays.chains step le (runRegion_report_retains endures label.name op
            bodies kept entered inner held fun _ _ _ => BuildM.endBody_calms)

theorem runLoop_retains (label : Label) (counter : Option String) (lower upper : IndexTerm)
    (spec : BuildM.LoopSpec) :
    Retains inv pool session (runLoop label counter lower upper spec body session).2 := by
  rw [runLoop, get_bind_apply]
  cases resolved : (do return (← session.vars.bound lower, ← session.vars.bound upper) :
    Resolved (Bound × Bound)) with
  | error undefined => exact .refl endures.tracks holds kept
  | ok bounds =>
      obtain ⟨low, high⟩ := bounds
      obtain ⟨lowFound, highFound⟩ := Except.pair_eq_ok resolved
      dsimp only
      rw [bind_apply]
      rcases ran : attempt (BuildM.beginLoop low high spec) session with ⟨made, opened⟩
      cases made with
      | error error =>
          have begun := attempt_moves holds kept
            (endures.beginLoop (holds.bound lowFound) (holds.bound highFound) spec)
          rwa [ran] at begun
      | ok made =>
          obtain ⟨var, header⟩ := made
          obtain ⟨wider, le, step, begun, entered, -, inner, held⟩ :=
            insideLoop_retains endures counter holds kept lowFound highFound ran
          exact .after_step Stays.chains step le (runRegion_report_retains endures label.name
            header.op bodies begun entered (endures.calm inner) held
              fun _ _ _ => BuildM.endBody_calms)

end Regions

/-- Scopes concern the insertion points only. -/
theorem runScoped_retains {body : SessionM BodyOutcome} (enter : Context → Context)
    (ran : Retains inv pool { session with context := enter session.context }
      (body { session with context := enter session.context }).2)
    (still : Stays session.context (enter session.context)) :
    Retains inv pool session (runScoped enter body session).2 := by
  obtain ⟨step, wider, le, kept, held⟩ := ran
  have calm := endures.calm kept
  exact ⟨Stays.chains.trans still step, wider, le,
    endures.same kept (.refl _) ⟨calm.sound, calm.plain⟩ fun _ => rfl, held⟩

end Steps

mutual

/-- A statement keeps what is known and loses no binding, whether it fails or not. -/
theorem runStatement_retains (endures : BuildM.Endures inv) :
    ∀ (statement : Statement) (pool : Pool) (session : Session),
      pool.Holds session.vars → inv pool session.context →
      Retains inv pool session (runStatement statement session).2
  | .command label command, _, _, holds, kept =>
      runCommand_moves endures.tracks label.name command holds kept
  | .function label name args result body, _, _, holds, kept =>
      runFunction_retains endures (runBody_settles body) holds kept label name args result
  | .loop label counter lower upper spec body, _, _, holds, kept =>
      runLoop_retains endures (runBody_settles body) holds kept label counter lower upper spec
  | .conditional label condition body, _, _, holds, kept =>
      runConditional_retains endures (runBody_settles body) holds kept label condition
  | .withPoint label ref body, pool, session, holds, kept => by
      change Retains inv pool session (Prod.snd ((match session.resolvePoint ref with
        | .error undefined => pure (.undefined undefined, none)
        | .ok point => runScoped (·.savePoint point) (runBody body) : SessionM Outcome) session))
      cases session.resolvePoint ref with
      | error undefined => exact .refl endures.tracks holds kept
      | ok point =>
          have calm := endures.calm kept
          refine runScoped_retains endures (·.savePoint point)
            (runBody_retains endures body pool _ holds ?_) (.of_same fun _ => rfl)
          exact endures.same kept (.refl _) ⟨calm.sound, calm.plain⟩ fun _ => rfl
  | .scoped label body, pool, session, holds, kept =>
      runScoped_retains endures (fun context => context)
        (runBody_retains endures body pool session holds kept) (.of_same fun _ => rfl)

/-- So does a body. -/
theorem runBody_retains (endures : BuildM.Endures inv) :
    ∀ (statements : List Statement) (pool : Pool) (session : Session),
      pool.Holds session.vars → inv pool session.context →
      Retains inv pool session (runBody statements session).2
  | [], _, _, holds, kept => .refl endures.tracks holds kept
  | statement :: rest, pool, session, holds, kept => by
      obtain ⟨step, wider, le, middle, held⟩ :=
        runStatement_retains endures statement pool session holds kept
      have others : Retains inv pool session (runBody rest (runStatement statement session).2).2 :=
        .after_step Stays.chains step le (runBody_retains endures rest wider _ held middle)
      rw [runBody, bind_apply]
      cases (runStatement statement session).1.failure with
      | none => exact others
      | some error =>
          cases statement.label.caught with
          | false => exact ⟨step, wider, le, middle, held⟩
          | true => exact others

end

/-- What is known at the beginning of a script is known at every moment that it passes. -/
theorem Passes.retains {statements : List Statement} {moment : Session}
    (passes : Passes statements session moment) (endures : BuildM.Endures inv)
    (holds : pool.Holds session.vars) (kept : inv pool session.context) :
    Retains inv pool session moment := by
  induction passes generalizing pool with
  | here => exact .refl endures.tracks holds kept
  | later _ ih =>
      obtain ⟨step, wider, le, middle, held⟩ := runStatement_retains endures _ pool _ holds kept
      exact .after_step Stays.chains step le (ih held middle)
  | function _ ran _ ih =>
      obtain ⟨step, wider, le, kept, held⟩ := beginFunction_retains endures holds kept ran
      exact .after_step Stays.chains step le (ih held (inside_endures endures kept _))
  | loop lowFound highFound ran _ ih =>
      obtain ⟨wider, le, step, -, -, entered, inner, held⟩ :=
        insideLoop_retains endures _ holds kept lowFound highFound ran
      exact .after_step Stays.chains (Stays.chains.trans step entered) le (ih held inner)
  | conditional resolved ran _ ih =>
      obtain ⟨step, wider, le, kept, held⟩ :=
        beginConditional_retains endures holds kept resolved ran
      exact .after_step Stays.chains step le (ih held (inside_endures endures kept _))
  | within _ ih => exact ih holds kept
  | point _ _ ih =>
      have calm := endures.calm kept
      exact ih holds (endures.same kept (.refl _) ⟨calm.sound, calm.plain⟩ fun _ => rfl)

end Session

end AffineKernel
