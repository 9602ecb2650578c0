import AffineKernel.Build.Control
import AffineKernel.Proofs.Build.Bindings
import AffineKernel.Proofs.Script.Pool

/-!
# Regions give bindings back

While a script runs, no axis is bound between two statements: axes are bound in
the nests of reductions only, and a nest is closed before the statement ends that
has opened it. So whatever a statement builds binds only nodes that are not bound,
and closing the region of a function, a loop or a conditional restores the
bindings exactly (`Session.statement_restores`), whether the body has failed or
not.

It is otherwise with the nests of reductions, which may be opened while axes are
bound. A nest restores the bindings but for the axes that it sweeps, itself or by
a reduction inside of it: these are unbound after it, also if they were bound
before (`BuildM.nest_restores`). That happens to a reduction inside of the nest
of another one over the same axis, and the outer nest is then without its axis
(`Program.sharedAxis`).
-/

set_option autoImplicit false

namespace AffineKernel

/-! ## Contexts in which no axis is bound -/

namespace Context

variable {pool wider : Pool} {before after context : Context}

/-- Nothing that was bound is bound otherwise, and what was bound since is logged. -/
abbrev Extends (before after : Context) : Prop :=
  Turns (fun _ => True) (fun _ => False) before after

/-- Only nodes of the pool are bound, and none of them is an axis. -/
structure Calm (pool : Pool) (context : Context) : Prop where
  sound : pool.Sound context.nextId
  plain : ∀ id binding, context.binding? id = some binding → pool.Plain id

/-- An axis is not bound. -/
theorem Calm.axis_free (calm : context.Calm pool) {id : NodeId} (axis : pool.Axis id) :
    context.binding? id = none := by
  cases found : context.binding? id with
  | none => rfl
  | some binding => exact absurd (calm.plain id binding found) (calm.sound.not_plain axis)

theorem Calm.widen (calm : context.Calm pool) (le : pool.Le wider)
    (sound : wider.Sound context.nextId) : context.Calm wider where
  sound := sound
  plain id binding found := by
    obtain ⟨expr, member, rest⟩ := calm.plain id binding found
    exact ⟨expr, le.expr member, rest⟩

/-- Where only axes may be bound again, and none is bound at the end, nothing was. -/
theorem Calm.turn {axes : NodeId → Prop} (calm : before.Calm pool)
    (turns : Turns pool.Plain axes before after) (swept : ∀ id, axes id → pool.Axis id)
    (later : before.nextId ≤ after.nextId) : Extends before after ∧ after.Calm pool := by
  have done : after.Calm pool := by
    refine ⟨calm.sound.mono later, fun id binding found => ?_⟩
    rcases turns.new id binding found with old | named
    · exact calm.plain id binding old
    · exact named
  refine ⟨⟨turns.regions, fun id binding found => .inr trivial, ?_⟩, done⟩
  obtain ⟨bound, nodes, known⟩ := turns.logged
  refine ⟨bound, nodes, fun inside id => ?_⟩
  have known := known inside id
  have free : axes id → before.binding? id = none ∧ after.binding? id = none :=
    fun axis => ⟨calm.axis_free (swept id axis), done.axis_free (swept id axis)⟩
  grind

end Context

namespace BuildM

open Context

variable {α : Type} {pool : Pool} {context : Context}

/-- A step that does not count as a constructor leaves the next identity alone. -/
def Later (before after : Context) : Prop := before.nextId ≤ after.nextId

theorem later_of_emits {action : BuildM α} (emits : Keeps (Emits []) action) :
    Keeps Later action :=
  emits.mono fun _ _ emits => emits.nextId_le

/-- An action that turns only axes of the pool keeps contexts calm. -/
theorem ensures_calm {action : BuildM α} {axes : NodeId → Prop} (calm : context.Calm pool)
    (turns : Keeps (Turns pool.Plain axes) action) (later : Keeps Later action)
    (swept : ∀ id, axes id → pool.Axis id) :
    Ensures action context (fun _ after => Extends context after ∧ after.Calm pool)
      (fun after => Extends context after ∧ after.Calm pool) :=
  ((turns context).and (later context)).mono
    (fun _ _ both => calm.turn both.1 swept both.2) fun _ both => calm.turn both.1 swept both.2

theorem ensures_calm_of_quiet {action : BuildM α} (calm : context.Calm pool)
    (quiet : Keeps Quiet action) (later : Keeps Later action) :
    Ensures action context (fun _ after => Extends context after ∧ after.Calm pool)
      (fun after => Extends context after ∧ after.Calm pool) :=
  ensures_calm calm (turns_of_quiet quiet) later fun _ => False.elim

theorem allocTensor_quiet (tensor : Tensor) : Keeps Quiet (allocTensor tensor) := by
  refine Quiet.chains.bind (Quiet.chains.checkType _) fun _ => ?_
  refine Quiet.chains.bind (quiet_creations.createValue rfl _ _ _) fun value => ?_
  exact Quiet.chains.bind (fun _ => ⟨rfl, rfl, rfl⟩) fun _ => Quiet.chains.pure _

theorem later_chains : Chains Later := ⟨fun _ => Nat.le_refl _, Nat.le_trans⟩

theorem allocTensor_later (tensor : Tensor) : Keeps Later (allocTensor tensor) := by
  refine later_chains.bind (later_chains.checkType _) fun _ => ?_
  refine later_chains.bind (later_of_emits (createValue_emits _ _ _ _)) fun value => ?_
  exact later_chains.bind (fun _ => Nat.le_refl _) fun _ => later_chains.pure _

/-- Contexts stay calm while nodes are constructed and built, and bindings are only added. -/
theorem calm_tracks : Tracks (fun pool context => context.Calm pool) Extends where
  chains := Turns.chains _ _
  still still calm :=
    ⟨.of_quiet ⟨still.bindings, still.regionNodes, still.regions⟩, still.nextId ▸ calm.sound,
      fun id binding found => calm.plain id binding (by rwa [binding?, still.bindings] at found)⟩
  insert := by
    intro pool context expr fresh accepts calm
    refine ⟨.of_quiet ⟨rfl, rfl, rfl⟩, calm.sound.insert fresh accepts, fun id binding found => ?_⟩
    obtain ⟨other, member, rest⟩ := calm.plain id binding found
    exact ⟨other, .inl member, rest⟩
  insertTensor fresh calm :=
    ⟨.of_quiet ⟨rfl, rfl, rfl⟩, calm.sound.insertTensor fresh, fun id binding found =>
      calm.plain id binding found⟩
  build := fun {_ _ expr} member calm =>
    ensures_calm calm (build_turns calm.sound.names expr member fun _ swept => swept)
      (later_of_emits (build_emits expr)) (Pool.swept_axis calm.sound expr member)
  allocTensor := fun {_ _ tensor} _ calm =>
    ensures_calm_of_quiet calm (allocTensor_quiet tensor) (allocTensor_later tensor)

/-! ## Functions, loops and conditionals -/

/-- An action over the nodes of a pool, as a step between calm contexts. -/
abbrev Calms (pool : Pool) (action : BuildM α) : Prop :=
  Follows (fun pool context => context.Calm pool) Extends pool action fun _ _ => True

theorem calms_of_quiet {action : BuildM α} (quiet : Keeps Quiet action)
    (later : Keeps Later action) : Calms pool action :=
  .of_ensures fun _ calm => ensures_calm_of_quiet calm quiet later

theorem bindArgs_quiet (block : BlockId) : ∀ (position : Nat) (tensors : List Tensor),
    Keeps Quiet (bindArgs block position tensors)
  | _, [] => Quiet.chains.pure ()
  | position, _ :: rest =>
      Quiet.chains.bind (fun _ => ⟨rfl, rfl, rfl⟩) fun _ => bindArgs_quiet block (position + 1) rest

theorem bindArgs_later (block : BlockId) : ∀ (position : Nat) (tensors : List Tensor),
    Keeps Later (bindArgs block position tensors)
  | _, [] => later_chains.pure ()
  | position, _ :: rest =>
      later_chains.bind (fun _ => Nat.le_refl _) fun _ => bindArgs_later block (position + 1) rest

theorem createRegion_later (kind : OpKind) (operands : List Value)
    (attributes : List (String × Attribute)) (args : List ValueType) :
    Keeps Later (createRegion kind operands attributes args) := fun context =>
  (createRegion_emits kind operands attributes args context).mono
    (fun _ _ made => made.1.nextId_le) fun _ emits => emits.nextId_le

theorem beginFunction_quiet (name : String) (args : List Tensor) :
    Keeps Quiet (beginFunction name args) := by
  refine Quiet.chains.bind (createRegion_quiet _ _ _ _) fun made => ?_
  refine Quiet.chains.bind (bindArgs_quiet _ _ _) fun _ => ?_
  exact Quiet.chains.bind (fun _ => ⟨rfl, rfl, rfl⟩) fun _ => Quiet.chains.pure _

theorem beginFunction_later (name : String) (args : List Tensor) :
    Keeps Later (beginFunction name args) := by
  refine later_chains.bind (createRegion_later _ _ _ _) fun made => ?_
  refine later_chains.bind (bindArgs_later _ _ _) fun _ => ?_
  exact later_chains.bind (fun _ => Nat.le_refl _) fun _ => later_chains.pure _

theorem beginFunction_calms (name : String) (args : List Tensor) :
    Calms pool (beginFunction name args) :=
  calms_of_quiet (beginFunction_quiet name args) (beginFunction_later name args)

theorem endBody_calms : Calms pool endBody :=
  calms_of_quiet emitYield_quiet (later_of_emits emitYield_emits)

theorem endFunction_calms {result : Option Expr}
    (member : ∀ expr, result = some expr → pool.expr expr) :
    Calms pool (endFunction result) := by
  have ended : ∀ (pool : Pool) (operands : List Value), Calms pool (do
      let _ ← create { kind := .ret, operands }) := fun pool operands =>
    calms_of_quiet (Quiet.chains.bind (create_quiet _) fun _ => Quiet.chains.pure _)
      (later_chains.bind (later_of_emits (create_emits _)) fun _ => later_chains.pure _)
  cases result with
  | none => exact ended pool []
  | some expr =>
      have built : Calms pool (buildValue expr) := calm_tracks.buildValue (member expr rfl)
      exact calm_tracks.bind built fun value wider _ _ => ended wider [value]

/-- A conditional is begun by building its condition; the rest binds nothing. -/
theorem Tracks.beginConditional {inv : Pool → Context → Prop}
    {relates : Context → Context → Prop} (tracks : Tracks inv relates)
    (quiets : ∀ {β : Type} {wider : Pool} {action : BuildM β}, Keeps Quiet action →
      Keeps Later action → Follows inv relates wider action fun _ _ => True)
    {condition : Expr} (member : pool.expr condition) :
    Follows inv relates pool (BuildM.beginConditional condition) fun _ _ => True := by
  refine tracks.bind (quiets (Quiet.chains.valueType condition)
    (later_chains.valueType condition)) fun dtype wider le _ => ?_
  dsimp only
  split
  · exact tracks.throw _
  refine tracks.bind (tracks.buildValue (le.expr member)) fun value wider _ _ => ?_
  refine quiets ?_ ?_
  · exact Quiet.chains.bind (quiet_creations.emitCast _ _ _) fun _ => createRegion_quiet _ _ _ _
  · exact later_chains.bind (later_of_emits (emits_steps.emitCast _ _ _)) fun _ =>
      createRegion_later _ _ _ _

theorem beginConditional_calms {condition : Expr} (member : pool.expr condition) :
    Calms pool (beginConditional condition) :=
  calm_tracks.beginConditional calms_of_quiet member

/-- The variable of a new loop is not bound yet. -/
theorem beginLoop_calm (calm : context.Calm pool) {lower upper : Bound}
    (low : ∀ expr ∈ lower.exprs, pool.expr expr) (high : ∀ expr ∈ upper.exprs, pool.expr expr)
    (spec : LoopSpec) :
    Ensures (beginLoop lower upper spec) context
      (fun made after => Extends context after ∧ after.binding? made.1.id = none ∧
        made.1.isAxis = false ∧ ∃ wider, pool.Le wider ∧ after.Calm wider ∧ wider.expr made.1)
      (fun after => Extends context after ∧ ∃ wider, pool.Le wider ∧ after.Calm wider) := by
  let axes : NodeId → Prop := fun id => id ∈ lower.swept ∨ id ∈ upper.swept
  have chains := Turns.chains pool.Plain axes
  have turns : Keeps (Turns pool.Plain axes) (do
      let low ← buildBound lower
      let high ← buildBound upper
      emitLoop low high spec) := by
    refine chains.bind (buildBound_turns calm.sound.names lower low fun _ => .inl) fun _ => ?_
    refine chains.bind (buildBound_turns calm.sound.names upper high fun _ => .inr) fun _ => ?_
    exact turns_of_quiet (emitLoop_quiet _ _ _)
  have later : Keeps Later (do
      let low ← buildBound lower
      let high ← buildBound upper
      emitLoop low high spec) := by
    refine later_chains.bind (later_of_emits (buildBound_emits lower)) fun _ => ?_
    refine later_chains.bind (later_of_emits (buildBound_emits upper)) fun _ context => ?_
    exact (emitLoop_emits _ _ _ context).mono (fun _ _ made => made.1.nextId_le)
      fun _ emits => emits.nextId_le
  have swept : ∀ id, axes id → pool.Axis id := by
    rintro id (inside | inside)
    · exact Pool.sweptBound_axis calm.sound lower low id inside
    · exact Pool.sweptBound_axis calm.sound upper high id inside
  have whole : beginLoop lower upper spec = freshId >>= fun id => (do
      let low ← buildBound lower
      let high ← buildBound upper
      emitLoop low high spec) >>= fun header =>
        pure (.loopVar id (spec.name.getD ""), header) := by
    simp only [beginLoop, bind_assoc]
  have started : Extends context { context with nextId := context.nextId + 1 } :=
    .of_quiet ⟨rfl, rfl, rfl⟩
  have fresh : ({ context with nextId := context.nextId + 1 } : Context).Calm pool :=
    ⟨calm.sound.mono (Nat.le_succ _), calm.plain⟩
  rw [whole, ensures_bind, ensures_freshId, ensures_bind]
  refine ((ensures_calm fresh turns later swept).and (later _)).mono ?_ ?_
  · rintro header after ⟨⟨stepped, done⟩, le⟩
    have accepts : pool.Accepts (.loopVar context.nextId (spec.name.getD "")) :=
      ⟨by simp [Expr.operands], by simp [Expr.bounds], trivial, by simp [Expr.tensor?]⟩
    refine ⟨started.trans stepped, ?_, rfl, _, pool.le_insert _,
      done.widen (pool.le_insert _) ((calm.sound.insert rfl accepts).mono le), .inr rfl⟩
    -- What is bound is a node that was constructed before.
    cases found : after.binding? context.nextId with
    | none => exact found
    | some binding =>
        obtain ⟨expr, member, same, -⟩ := done.plain _ _ found
        exact absurd (calm.sound.below member) (Nat.not_lt.mpr (Nat.le_of_eq same.symm))
  · rintro after ⟨⟨stepped, done⟩, -⟩
    exact ⟨started.trans stepped, pool, .refl pool, done⟩

end BuildM

/-! ## Statements -/

namespace Session

open Context

variable {pool : Pool} {session opened after : Session}

/-- A step between calm sessions. -/
abbrev Settles (pool : Pool) (session after : Session) : Prop :=
  Moves (fun pool context => context.Calm pool) Extends pool session after

/-- A step, and a step after it within a wider pool. -/
theorem Moves.after_step {inv : Pool → Context → Prop} {relates : Context → Context → Prop}
    (chains : BuildM.Chains relates) {middle : Session} {wider : Pool}
    (step : relates session.context middle.context) (le : pool.Le wider)
    (later : Moves inv relates wider middle after) : Moves inv relates pool session after := by
  obtain ⟨further, widest, up, kept, holds⟩ := later
  exact ⟨chains.trans step further, widest, le.trans up, kept, holds⟩

/-- A body, from whatever calm session it starts. -/
def Bodily (body : SessionM BodyOutcome) : Prop :=
  ∀ (pool : Pool) (session : Session), pool.Holds session.vars → session.context.Calm pool →
    Settles pool session (body session).2

section Regions

variable {block : BlockId} {enter : SessionM Unit} {body : SessionM BodyOutcome}
  {leave : Session → BuildM Unit}

/-- Closing a region restores the bindings that were there when it was opened. -/
theorem runRegion_restores (bodies : Bodily body)
    (entered : Extends session.context.enterRegion (enter (session.inside block)).2.context)
    (calm : (enter (session.inside block)).2.context.Calm pool)
    (holds : pool.Holds (enter (session.inside block)).2.vars)
    (leaves : ∀ (pool : Pool) (seen : Session), pool.Holds seen.vars →
      BuildM.Calms pool (leave seen)) :
    Settles pool session (runRegion block enter body leave session).2 ∧
      ∀ id, (runRegion block enter body leave session).2.context.binding? id =
        session.context.binding? id := by
  have ended : ∀ last : Session, Settles pool (enter (session.inside block)).2 last →
      Settles pool session (last.leaving session.context.mark) ∧
        ∀ id, (last.leaving session.context.mark).context.binding? id =
          session.context.binding? id := by
    rintro last ⟨ran, wider, le, done, held⟩
    have turns := entered.trans ran
    exact ⟨⟨turns.leave _, wider, le, ⟨done.sound, fun id binding found =>
      done.plain id binding (binding?_of_leave found)⟩, held⟩,
      fun id => (turns.binding?_leave id).resolve_right fun gone => gone.1⟩
  rw [runRegion_apply]
  have ran := bodies pool _ holds calm
  rcases outcome : body (enter (session.inside block)).2 with ⟨⟨records, failure⟩, done⟩
  rw [outcome] at ran
  cases failure with
  | some error => exact ended done ran
  | none =>
      obtain ⟨step, wider, le, inner, held⟩ := ran
      have left : Settles pool (enter (session.inside block)).2 (attempt (leave done) done).2 :=
        .after_step (Turns.chains _ _) step le (attempt_moves held inner (leaves wider done held))
      rcases closed : attempt (leave done) done with ⟨result, last⟩
      rw [closed] at left
      cases result with
      | ok _ =>
          rw [closeRegion_ok closed]
          exact ended last left
      | error error =>
          rw [closeRegion_error closed]
          exact ended last left

/-- The report on a region does not concern the context. -/
theorem reportRegion_names (name : Option String) (op : OpId) (outcome : BodyOutcome)
    (session : Session) : Names pool session (reportRegion name op outcome session).2 := by
  rcases outcome with ⟨records, failure⟩
  cases failure with
  | some error => exact ⟨rfl, fun holds => holds⟩
  | none => exact assign_names name (show pool.entity (.op op) from trivial) session

/-- A region and the report on it. -/
theorem runRegion_report_restores (name : Option String) (op : OpId) (bodies : Bodily body)
    (entered : Extends session.context.enterRegion (enter (session.inside block)).2.context)
    (calm : (enter (session.inside block)).2.context.Calm pool)
    (holds : pool.Holds (enter (session.inside block)).2.vars)
    (leaves : ∀ (pool : Pool) (seen : Session), pool.Holds seen.vars →
      BuildM.Calms pool (leave seen)) :
    Settles pool session ((runRegion block enter body leave >>= reportRegion name op) session).2 ∧
      ∀ id, ((runRegion block enter body leave >>= reportRegion name op) session).2.context.binding?
        id = session.context.binding? id := by
  rw [bind_apply]
  obtain ⟨⟨step, wider, le, done, held⟩, restored⟩ :=
    runRegion_restores bodies entered calm holds leaves
  obtain ⟨same, named⟩ : Names wider _ _ := reportRegion_names name op
    (runRegion block enter body leave session).1 (runRegion block enter body leave session).2
  exact ⟨⟨same ▸ step, wider, le, same ▸ done, named held⟩, fun id => same ▸ restored id⟩

/-- The region of a function or conditional is entered. -/
theorem inside_calm (calm : session.context.Calm pool) (block : BlockId) :
    Extends session.context.enterRegion (session.inside block).context ∧
      (session.inside block).context.Calm pool :=
  ⟨.of_quiet ⟨rfl, rfl, rfl⟩, calm.sound, calm.plain⟩

/-- The region of a loop is entered, whose variable is not bound yet. -/
theorem insideLoop_calm (header : BuildM.LoopHeader) {var : Expr} (counter : Option String)
    (calm : session.context.Calm pool) (holds : pool.Holds session.vars)
    (free : session.context.binding? var.id = none) (member : pool.expr var)
    (plain : var.isAxis = false) :
    Extends session.context.enterRegion (session.insideLoop header var counter).context ∧
      (session.insideLoop header var counter).context.Calm pool ∧
      pool.Holds (session.insideLoop header var counter).vars := by
  let bound : Session :=
    { session with
      context := (session.inside header.body).context.bind var.id (.value header.counter) }
  obtain ⟨entered, inner⟩ := inside_calm calm header.body
  obtain ⟨same, named⟩ : Names pool bound (session.insideLoop header var counter) :=
    assign_names counter (show pool.entity (.expr var) from member) bound
  rw [same]
  refine ⟨entered.bind _ (.inl free) trivial, ⟨inner.sound, fun id binding found => ?_⟩,
    named holds⟩
  rw [binding?_bind] at found
  split at found
  · rename_i known
    exact ⟨var, member, known, plain⟩
  · exact inner.plain id binding found

variable (bodies : Bodily body) (holds : pool.Holds session.vars)
  (calm : session.context.Calm pool)
include bodies holds calm

theorem runFunction_settles (label : Label) (name : String) (args : List String)
    (result : Option String) :
    Settles pool session (runFunction label name args result body session).2 ∧
      ∀ tensors op block opened, args.mapM session.vars.tensor = .ok tensors →
        attempt (BuildM.beginFunction name tensors) session = (.ok (op, block), opened) →
        ∀ id, (runFunction label name args result body session).2.context.binding? id =
          opened.context.binding? id := by
  cases resolved : args.mapM session.vars.tensor with
  | error undefined =>
      rw [runFunction, get_bind_apply, resolved]
      exact ⟨.refl BuildM.calm_tracks holds calm, by rintro _ _ _ _ ⟨⟩⟩
  | ok tensors =>
      rw [runFunction_apply resolved, bind_apply]
      have begun := attempt_moves holds calm (BuildM.beginFunction_calms name tensors)
      rcases ran : attempt (BuildM.beginFunction name tensors) session with ⟨made, opened⟩
      rw [ran] at begun
      cases made with
      | error error =>
          refine ⟨begun, fun _ _ _ _ same again => ?_⟩
          cases same
          rw [ran] at again
          cases again
      | ok made =>
          obtain ⟨op, block⟩ := made
          obtain ⟨step, wider, le, calm, held⟩ := begun
          obtain ⟨entered, inner⟩ := inside_calm calm block
          let leave : Session → BuildM Unit := fun seen =>
            BuildM.endFunction (result.bind fun name => (seen.vars.expr name).toOption)
          have leaves : ∀ (pool : Pool) (seen : Session), pool.Holds seen.vars →
              BuildM.Calms pool (leave seen) := by
            refine fun pool seen holds => BuildM.endFunction_calms fun expr found => ?_
            obtain ⟨name, -, known⟩ := Option.bind_eq_some_iff.mp found
            exact holds.expr (Except.eq_ok_of_toOption known)
          obtain ⟨settled, restored⟩ := runRegion_report_restores label.name op bodies
            (show Extends opened.context.enterRegion
              ((pure () : SessionM Unit) (opened.inside block)).2.context from entered)
            inner held leaves
          refine ⟨.after_step (Turns.chains _ _) step le settled, fun _ _ _ _ same again => ?_⟩
          cases same
          rw [ran] at again
          cases again
          exact restored

theorem runLoop_settles (label : Label) (counter : Option String) (lower upper : IndexTerm)
    (spec : BuildM.LoopSpec) :
    Settles pool session (runLoop label counter lower upper spec body session).2 ∧
      ∀ low high var header opened, session.vars.bound lower = .ok low →
        session.vars.bound upper = .ok high →
        attempt (BuildM.beginLoop low high spec) session = (.ok (var, header), opened) →
        ∀ id, (runLoop label counter lower upper spec body session).2.context.binding? id =
          opened.context.binding? id := by
  rw [runLoop, get_bind_apply]
  cases resolved : (do return (← session.vars.bound lower, ← session.vars.bound upper) :
    Resolved (Bound × Bound)) with
  | error undefined =>
      refine ⟨.refl BuildM.calm_tracks holds calm, fun low high _ _ _ first second => ?_⟩
      rw [first, second] at resolved
      cases resolved
  | ok bounds =>
      obtain ⟨low, high⟩ := bounds
      obtain ⟨lowFound, highFound⟩ := Except.pair_eq_ok resolved
      have begun := BuildM.beginLoop_calm calm (holds.bound lowFound) (holds.bound highFound) spec
      dsimp only
      rw [bind_apply]
      rcases ran : attempt (BuildM.beginLoop low high spec) session with ⟨made, opened⟩
      have vars := attempt_vars ran
      cases made with
      | error error =>
          obtain ⟨step, wider, le, calm⟩ := attempt_error begun ran
          refine ⟨⟨step, wider, le, calm, vars ▸ le.holds holds⟩, fun _ _ _ _ _ first second again => ?_⟩
          cases lowFound.symm.trans first
          cases highFound.symm.trans second
          rw [ran] at again
          cases again
      | ok made =>
          obtain ⟨var, header⟩ := made
          obtain ⟨step, free, plain, wider, le, calm, member⟩ := attempt_ok begun ran
          obtain ⟨entered, inner, held⟩ := insideLoop_calm header counter calm
            (vars ▸ le.holds holds) free member plain
          obtain ⟨settled, restored⟩ := runRegion_report_restores label.name header.op bodies
            entered inner held fun _ _ _ => BuildM.endBody_calms
          refine ⟨.after_step (Turns.chains _ _) step le settled,
            fun _ _ _ _ _ first second again => ?_⟩
          cases lowFound.symm.trans first
          cases highFound.symm.trans second
          rw [ran] at again
          cases again
          exact restored

theorem runConditional_settles (label : Label) (condition : Operand) :
    Settles pool session (runConditional label condition body session).2 ∧
      ∀ operand op block opened, session.vars.operand condition = .ok operand →
        attempt (do BuildM.beginConditional (← operand)) session = (.ok (op, block), opened) →
        ∀ id, (runConditional label condition body session).2.context.binding? id =
          opened.context.binding? id := by
  rw [runConditional, get_bind_apply]
  cases resolved : session.vars.operand condition with
  | error undefined => exact ⟨.refl BuildM.calm_tracks holds calm, by rintro _ _ _ _ ⟨⟩⟩
  | ok operand =>
      dsimp only
      rw [bind_apply]
      have begun := attempt_moves holds calm
        (BuildM.calm_tracks.bind (BuildM.calm_tracks.free (holds.operand resolved))
          fun _ _ _ member => BuildM.beginConditional_calms member)
      rcases ran : attempt (do BuildM.beginConditional (← operand)) session with ⟨made, opened⟩
      rw [ran] at begun
      cases made with
      | error error =>
          refine ⟨begun, fun _ _ _ _ same again => ?_⟩
          cases same
          rw [ran] at again
          cases again
      | ok made =>
          obtain ⟨op, block⟩ := made
          obtain ⟨step, wider, le, calm, held⟩ := begun
          obtain ⟨entered, inner⟩ := inside_calm calm block
          obtain ⟨settled, restored⟩ := runRegion_report_restores label.name op bodies
            (show Extends opened.context.enterRegion
              ((pure () : SessionM Unit) (opened.inside block)).2.context from entered)
            inner held fun _ _ _ => BuildM.endBody_calms
          refine ⟨.after_step (Turns.chains _ _) step le settled, fun _ _ _ _ same again => ?_⟩
          cases same
          rw [ran] at again
          cases again
          exact restored

end Regions

/-- Scopes concern the insertion points only. -/
theorem runScoped_settles {body : SessionM BodyOutcome} (bodies : Bodily body)
    (holds : pool.Holds session.vars) (calm : session.context.Calm pool)
    (enter : Context → Context) (still : BuildM.Still session.context (enter session.context)) :
    Settles pool session (runScoped enter body session).2 := by
  let entered : Session := { session with context := enter session.context }
  obtain ⟨step, kept⟩ := BuildM.calm_tracks.still still calm
  obtain ⟨ran, wider, le, done, held⟩ := bodies pool entered holds kept
  have left : BuildM.Still (body entered).2.context
      ((body entered).2.context.truncate session.context.depth) :=
    ⟨rfl, rfl, rfl, rfl, rfl, rfl, rfl⟩
  obtain ⟨last, done⟩ := BuildM.calm_tracks.still left done
  exact ⟨(step.trans ran).trans last, wider, le, done, held⟩

mutual

/-- A statement keeps sessions calm. -/
theorem runStatement_settles : ∀ (statement : Statement) (pool : Pool) (session : Session),
    pool.Holds session.vars → session.context.Calm pool →
    Settles pool session (runStatement statement session).2
  | .command label command, _, _, holds, calm =>
      runCommand_moves BuildM.calm_tracks label.name command holds calm
  | .function label name args result body, _, _, holds, calm =>
      (runFunction_settles (runBody_settles body) holds calm label name args result).1
  | .loop label counter lower upper spec body, _, _, holds, calm =>
      (runLoop_settles (runBody_settles body) holds calm label counter lower upper spec).1
  | .conditional label condition body, _, _, holds, calm =>
      (runConditional_settles (runBody_settles body) holds calm label condition).1
  | .withPoint label ref body, pool, session, holds, calm => by
      change Settles pool session (Prod.snd ((match session.resolvePoint ref with
        | .error undefined => pure (.undefined undefined, none)
        | .ok point => runScoped (·.savePoint point) (runBody body) : SessionM Outcome) session))
      cases session.resolvePoint ref with
      | error undefined => exact .refl BuildM.calm_tracks holds calm
      | ok point =>
          have still : BuildM.Still session.context (session.context.savePoint point) :=
            ⟨rfl, rfl, rfl, rfl, rfl, rfl, rfl⟩
          exact runScoped_settles (runBody_settles body) holds calm (·.savePoint point) still
  | .scoped label body, pool, session, holds, calm => by
      have still : BuildM.Still session.context session.context :=
        ⟨rfl, rfl, rfl, rfl, rfl, rfl, rfl⟩
      exact runScoped_settles (runBody_settles body) holds calm (fun context => context) still

/-- So does a body. -/
theorem runBody_settles : ∀ statements : List Statement, Bodily (runBody statements)
  | [], _, _, holds, calm => .refl BuildM.calm_tracks holds calm
  | statement :: rest, pool, session, holds, calm => by
      obtain ⟨step, wider, le, middle, held⟩ := runStatement_settles statement pool session holds calm
      have others : Settles pool session (runBody rest (runStatement statement session).2).2 :=
        .after_step (Turns.chains _ _) step le (runBody_settles rest wider _ held middle)
      rw [runBody, bind_apply]
      cases (runStatement statement session).1.failure with
      | none => exact others
      | some error =>
          cases statement.label.caught with
          | false => exact ⟨step, wider, le, middle, held⟩
          | true => exact others

end

/-- At every moment that a script passes, no axis is bound. -/
theorem Passes.calm {statements : List Statement} {moment : Session}
    (passes : Passes statements session moment) (holds : pool.Holds session.vars)
    (calm : session.context.Calm pool) :
    ∃ wider : Pool, wider.Holds moment.vars ∧ moment.context.Calm wider := by
  induction passes generalizing pool with
  | here => exact ⟨pool, holds, calm⟩
  | @later statement rest session moment _ ih =>
      obtain ⟨-, wider, -, middle, held⟩ := runStatement_settles statement pool session holds calm
      exact ih held middle
  | @function label name args result body rest session opened moment tensors op block _ ran _ ih =>
      have begun := attempt_moves holds calm (BuildM.beginFunction_calms name tensors)
      rw [ran] at begun
      obtain ⟨-, wider, -, calm, held⟩ := begun
      exact ih held (inside_calm calm block).2
  | @loop label counter lower upper spec body rest session opened moment low high var header
      lowFound highFound ran _ ih =>
      obtain ⟨-, free, plain, wider, le, calm, member⟩ := attempt_ok
        (BuildM.beginLoop_calm calm (holds.bound lowFound) (holds.bound highFound) spec) ran
      obtain ⟨-, inner, held⟩ := insideLoop_calm header counter calm
        (attempt_vars ran ▸ le.holds holds) free member plain
      exact ih held inner
  | @conditional label condition body rest session opened moment operand op block resolved ran _
      ih =>
      have begun := attempt_moves holds calm
        (BuildM.calm_tracks.bind (BuildM.calm_tracks.free (holds.operand resolved))
          fun _ _ _ member => BuildM.beginConditional_calms member)
      rw [ran] at begun
      obtain ⟨-, wider, -, calm, held⟩ := begun
      exact ih held (inside_calm calm block).2
  | within _ ih => exact ih holds calm
  | point _ _ ih => exact ih holds ⟨calm.sound, calm.plain⟩

/-- The region of a statement is opened: the statement has begun its operation, and its body is to
run next. -/
inductive Opens : Statement → Session → Session → Prop where
  | function {label : Label} {name : String} {args : List String} {result : Option String}
      {body : List Statement} {session opened : Session} {tensors : List Tensor} {op : OpId}
      {block : BlockId} :
      args.mapM session.vars.tensor = .ok tensors →
      attempt (BuildM.beginFunction name tensors) session = (.ok (op, block), opened) →
      Opens (.function label name args result body) session opened
  | loop {label : Label} {counter : Option String} {lower upper : IndexTerm}
      {spec : BuildM.LoopSpec} {body : List Statement} {session opened : Session}
      {low high : Bound} {var : Expr} {header : BuildM.LoopHeader} :
      session.vars.bound lower = .ok low → session.vars.bound upper = .ok high →
      attempt (BuildM.beginLoop low high spec) session = (.ok (var, header), opened) →
      Opens (.loop label counter lower upper spec body) session opened
  | conditional {label : Label} {condition : Operand} {body : List Statement}
      {session opened : Session} {operand : BuildM Expr} {op : OpId} {block : BlockId} :
      session.vars.operand condition = .ok operand →
      attempt (do BuildM.beginConditional (← operand)) session = (.ok (op, block), opened) →
      Opens (.conditional label condition body) session opened

/-- After a statement with a region, every node is bound as it was when the region was opened,
whether the statement has failed or not. -/
theorem statement_restores {statement : Statement} (holds : pool.Holds session.vars)
    (calm : session.context.Calm pool) (opens : Opens statement session opened) (id : NodeId) :
    (runStatement statement session).2.context.binding? id = opened.context.binding? id := by
  cases opens with
  | @function label name args result body _ _ tensors op block resolved ran =>
      exact (runFunction_settles (runBody_settles body) holds calm label name args result).2
        tensors op block opened resolved ran id
  | @loop label counter lower upper spec body _ _ low high var header lowFound highFound ran =>
      exact (runLoop_settles (runBody_settles body) holds calm label counter lower upper spec).2
        low high var header opened lowFound highFound ran id
  | @conditional label condition body _ _ operand op block resolved ran =>
      exact (runConditional_settles (runBody_settles body) holds calm label condition).2
        operand op block opened resolved ran id

end Session

namespace Program

/-- **Regions give bindings back.** At every moment of a program, a function, a loop or a
conditional leaves every node bound as it was when the region of the statement was opened, whether
its body fails or not. The nest of a reduction does so in every context for all nodes but the axes
that are swept in the nest; such an axis may be unbound after it. -/
theorem regions_restore_bindings (program : Program) {moment : Session}
    (passes : Session.Passes program.body (program.session .fresh) moment) :
    (∀ (statement : Statement) (opened : Session), Session.Opens statement moment opened →
      ∀ id, (Session.runStatement statement moment).2.context.binding? id =
        opened.context.binding? id) ∧
    ∀ (acc : BuildM.Accumulator) (kind : ReduceKind) (dtype : DType) (body : Expr)
      (axes : List Expr) (context : Context),
      BuildM.Ensures (BuildM.inRegion (BuildM.reduceNest acc kind dtype body axes)) context
        (fun _ after => ∀ id, after.binding? id = context.binding? id ∨
          id ∈ sweptAxes axes ++ body.swept ∧ after.binding? id = none)
        (fun after => ∀ id, after.binding? id = context.binding? id ∨
          id ∈ sweptAxes axes ++ body.swept ∧ after.binding? id = none) := by
  have holds : Pool.empty.Holds (program.session .fresh).vars := fun _ _ found => by cases found
  have calm : (program.session .fresh).context.Calm .empty :=
    ⟨Pool.sound_empty _, fun _ _ found => by cases found⟩
  obtain ⟨pool, held, inner⟩ := passes.calm holds calm
  exact ⟨fun statement opened opens id => Session.statement_restores held inner opens id,
    BuildM.nest_restores⟩

/-! ## A nest without its axis -/

/-- The nodes of a sum over an axis whose body is another sum over the same axis, and the axis. -/
def sharedNodes : List Statement :=
  [.command ⟨some "k", false⟩ (.make (.axis (.const 0) (.const 3) "k")),
    .command ⟨some "c", false⟩ (.make (.constant (.int 1) .index)),
    .command ⟨some "inner", false⟩ (.make (.reduce .sum (.var "c") ["k"])),
    .command ⟨some "s", false⟩ (.make (.binary .add (.var "inner") (.var "k"))),
    .command ⟨some "outer", false⟩ (.make (.reduce .sum (.var "s") ["k"]))]

/-- A function that builds the outer sum. -/
def sharedFunction : Statement :=
  .function ⟨none, false⟩ "f" [] none (sharedNodes ++ [.command ⟨none, true⟩ (.build "outer")])

/-- The program of this function. -/
def sharedAxis : Program where
  mode := some .deferred
  setting := none
  setup := []
  body := [sharedFunction]

/-- The session in which the region of the function is opened. -/
def sharedAxisOpened : Session :=
  (Session.attempt (BuildM.beginFunction "f" []) (sharedAxis.session .fresh)).2

/-- The session in which the outer sum is about to be built. -/
def sharedAxisMoment : Session :=
  sharedNodes.foldl (fun session statement => (Session.runStatement statement session).2)
    (sharedAxisOpened.inside ⟨1⟩)

/-- Opens the nest of the outer sum and builds the inner one; yields what the axis is bound to
before the inner sum and after it. -/
def sharedAxisBindings : BuildM (Option Binding × Option Binding) := do
  let axis : Expr := .axis 0 "k" (.const 0) (.const 3)
  BuildM.openAxes [axis]
  let before := (← get).binding? axis.id
  let _ ← BuildM.build (.reduce 2 .index .sum (.constant 1 .index (.int 1)) [axis])
  return (before, (← get).binding? axis.id)

theorem sharedAxis_passes :
    Session.Passes sharedAxis.body (sharedAxis.session .fresh) sharedAxisMoment :=
  .function rfl rfl (.later (.later (.later (.later (.later .here)))))

/-- The inner sum leaves the axis of the outer one unbound, and the outer sum fails for want of
it. -/
theorem sharedAxis_unbound :
    Session.Passes sharedAxis.body (sharedAxis.session .fresh) sharedAxisMoment ∧
      (match sharedAxisBindings sharedAxisMoment.context.enterRegion with
        | .ok pair _ => some pair
        | .error _ _ => none) = some (some (.value (.arg ⟨2⟩ 0)), none) ∧
      (Session.runStatement (.command ⟨none, true⟩ (.build "outer")) sharedAxisMoment).1.failure =
        some (.unboundLoopVar "k") :=
  ⟨sharedAxis_passes, by decide +kernel, by decide +kernel⟩

theorem sharedAxis_restored :
    (Session.runStatement sharedFunction (sharedAxis.session .fresh)).1.failure = none ∧
      ∀ id, (Session.runStatement sharedFunction (sharedAxis.session .fresh)).2.context.binding? id =
        sharedAxisOpened.context.binding? id :=
  ⟨by decide +kernel, (regions_restore_bindings sharedAxis .here).1 sharedFunction sharedAxisOpened
    (.function rfl rfl)⟩

end Program

end AffineKernel
