import AffineKernel.Proofs.Build.Readiness
import AffineKernel.Proofs.Script.Commands
import AffineKernel.Proofs.Script.Sharing

/-!
# Nothing is built too early

In the in-place mode a constructor builds its node at once if it is ready. Whether
it is ready is told by the nodes down to those that are bound; the nodes below
these are taken to be bound as well. At every moment of a script they are
(`Context.Poised`): a binding is undone when a region closes, and then the
bindings of what lies below are either older or undone with it.

So no constructor of a script ever fails for want of a loop variable, of storage
or of the nest of a reduction (`Program.nothing_built_too_early`), in whatever
order nodes are constructed and built, functions, loops and conditionals are
nested, and failures are caught.
-/

set_option autoImplicit false

namespace AffineKernel

namespace Context

variable {pool wider : Pool} {before after context : Context}

/-- A grounded context in which loop variables are bound to values. -/
structure Poised (pool : Pool) (context : Context) : Prop extends Grounded pool context where
  counted : context.Counted pool

namespace Poised

theorem supplies (poised : context.Poised pool) : context.Supplies pool :=
  ⟨poised.toCalm.unswept, poised.closed, poised.counted⟩

/-- The same bindings, within a wider pool. -/
theorem of_same (poised : before.Poised pool) (le : pool.Le wider) (calm : after.Calm wider)
    (same : ∀ id, after.binding? id = before.binding? id) : after.Poised wider where
  toGrounded := poised.toGrounded.of_same le calm same
  counted := by
    intro expr member named binding found
    rw [same] at found
    -- What is bound was constructed before.
    obtain ⟨other, old, known, -⟩ := poised.plain _ _ found
    obtain rfl := calm.sound.unique (le.expr old) member known
    exact poised.counted other old named binding found

/-- The variable of a loop is bound to a value. -/
theorem bind_loopVar (poised : context.Poised pool) {id : NodeId} {name : String} (value : Value)
    (member : pool.expr (.loopVar id name)) (calm : (context.bind id (.value value)).Calm pool) :
    (context.bind id (.value value)).Poised pool where
  toGrounded := poised.toGrounded.bind_loopVar member calm
  counted := by
    intro expr there named binding found
    rw [binding?_bind] at found
    split at found
    · exact ⟨value, (Option.some.inj found).symm⟩
    · exact poised.counted expr there named binding found

end Poised

end Context

namespace BuildM

variable {α : Type} {pool : Pool} {context : Context} {permit : Permit}

/-- Between the statements of a script loop variables are bound to values. -/
theorem poised_endures : Endures fun pool context => context.Poised pool where
  calm poised := poised.toCalm
  same poised le calm same := poised.of_same le calm same
  runs poised runs members calm :=
    ⟨grounded_endures.runs poised.toGrounded runs members calm,
      poised.counted.runs poised.sound runs members⟩
  counter value poised member _ calm := poised.bind_loopVar value member calm

/-- The steps of a plan never fail prematurely: it builds only what is ready. -/
theorem Plans.proceeds {action : BuildM α} {good : Pool → α → Prop}
    (plans : Plans permit pool action good) (poised : context.Poised pool) :
    Proceeds action context := by
  have tracks := poised_endures.tracks
  induction plans generalizing context with
  | pure => exact .pure _ context
  | throw error proper => exact .throw proper context
  | @emit_bind _ event _ _ _ ih =>
      have still : Still context (context.emit event) := ⟨rfl, rfl, rfl, rfl, rfl, rfl, rfl⟩
      exact .step rfl rfl (ih (tracks.still still poised).2)
  | finish_bind fresh _ accepts _ ih =>
      obtain ⟨-, grown⟩ := tracks.insert (fresh context.nextId) (accepts context.nextId) poised
      refine (finish_proceeds grown.sound (.inr rfl) grown.supplies).bind fun expr middle ran => ?_
      obtain ⟨rfl, -, kept⟩ := (tracks.finish poised fresh accepts).of_ok ran
      exact ih _ kept
  | axis_bind accepts _ ih =>
      exact .step rfl rfl (ih context.nextId (tracks.insert rfl (accepts context.nextId) poised).2)
  | @placeholder_bind _ name shape dtype _ _ _ ih =>
      have fresh : (⟨context.nextId, name, shape, dtype⟩ : Tensor).id = context.nextId := rfl
      exact .step rfl rfl (ih context.nextId (tracks.insertTensor fresh poised).2)

theorem Plans.proceeds_of_free {action : BuildM α} {good : Pool → α → Prop}
    (plans : Plans .all pool action good) (poised : context.Poised pool) :
    Proceeds action context := plans.proceeds poised

end BuildM

namespace Session

variable {α : Type} {pool : Pool} {session : Session}

/-- A command fails as the action does that its variables make. -/
theorem perform_proper {plan : Variables → Resolved (BuildM α)} {report : α → SessionM Report}
    (proceeds : ∀ action, plan session.vars = .ok action →
      BuildM.Proceeds action session.context) {error : BuildError}
    (failed : (perform plan report session).1.2 = some error) : error.isPremature = false := by
  rw [perform, get_bind_apply] at failed
  cases resolved : plan session.vars with
  | error name =>
      rw [resolved] at failed
      cases failed
  | ok action =>
      rw [resolved] at failed
      dsimp only at failed
      rw [bind_apply, attempt_apply] at failed
      cases ran : action session.context with
      | ok a after =>
          rw [ran] at failed
          cases failed
      | error other after =>
          rw [ran] at failed
          cases failed
          exact (proceeds action resolved).proper ran

/-- A command that only looks at what variables hold never fails. -/
theorem inspect_proper {plan : Variables → Resolved α} {report : α → SessionM Report}
    {error : BuildError} (failed : (inspect plan report session).1.2 = some error) :
    error.isPremature = false := by
  rw [inspect, get_bind_apply] at failed
  cases resolved : plan session.vars <;> rw [resolved] at failed <;> cases failed

theorem extract_proper {expr : Expr} {error : BuildError}
    (failed : (extract expr session).1.2 = some error) : error.isPremature = false := by
  rw [extract, get_bind_apply] at failed
  cases read : Extraction.index expr session.refs with
  | ok form refs =>
      rw [read] at failed
      cases failed
  | error other refs =>
      rw [read] at failed
      cases failed
      exact Extraction.index_refuses expr _ _ _ read

theorem extractMap_proper {exprs : List Expr} {error : BuildError}
    (failed : (extractMap exprs session).1.2 = some error) : error.isPremature = false := by
  rw [extractMap, get_bind_apply] at failed
  cases read : Extraction.access exprs session.refs with
  | ok map refs =>
      rw [read] at failed
      cases failed
  | error other refs =>
      rw [read] at failed
      cases failed
      exact Extraction.access_refuses exprs _ _ _ read

/-- A command that does not ask for a build never fails prematurely. -/
theorem runCommand_proper (name : Option String) {command : Command}
    (passive : command.builds = false) (holds : pool.Holds session.vars)
    (poised : session.context.Poised pool) {error : BuildError}
    (failed : (runCommand name command session).1.2 = some error) : error.isPremature = false := by
  cases command with
  | make recipe =>
      refine perform_proper (fun _ resolved => ?_) failed
      exact (holds.recipe (Recipe.within_all _ _) resolved).proceeds poised
  | placeholder tensor shape dtype =>
      refine perform_proper (fun action resolved => ?_) failed
      cases resolved
      exact (BuildM.placeholder_plans tensor shape dtype).proceeds_of_free poised
  | index terms tensor =>
      refine perform_proper (fun action resolved => ?_) failed
      obtain ⟨args, known, resolved⟩ := Except.bind_eq_ok resolved
      obtain ⟨target, found, same⟩ := Except.bind_eq_ok resolved
      cases same
      exact (BuildM.indexSlice_plans (BuildM.whole_slice (holds.tensor found))
        (holds.indexArgs known) fun _ => trivial).proceeds_of_free poised
  | indexSlice terms slice =>
      refine perform_proper (fun action resolved => ?_) failed
      obtain ⟨args, known, resolved⟩ := Except.bind_eq_ok resolved
      obtain ⟨target, found, same⟩ := Except.bind_eq_ok resolved
      cases same
      exact (BuildM.indexSlice_plans (holds.slice found) (holds.indexArgs known)
        fun _ => trivial).proceeds_of_free poised
  | promote lhs rhs kind =>
      refine perform_proper (fun action resolved => ?_) failed
      obtain ⟨left, leftFound, resolved⟩ := Except.bind_eq_ok resolved
      obtain ⟨right, rightFound, same⟩ := Except.bind_eq_ok resolved
      cases same
      cases kind with
      | none =>
          exact (BuildM.promote_plans (holds.expr leftFound)
            (holds.expr rightFound)).proceeds_of_free poised
      | some kind =>
          exact (BuildM.promoteBits_plans kind (holds.expr leftFound)
            (holds.expr rightFound)).proceeds_of_free poised
  | restorePoint =>
      refine perform_proper (fun action resolved => ?_) failed
      cases resolved
      rw [BuildM.Proceeds, BuildM.restorePoint, EStateM.get_bind_apply]
      cases session.context.stack <;> rfl
  | currentPoint =>
      refine perform_proper (fun action resolved => ?_) failed
      cases resolved
      rw [BuildM.Proceeds, BuildM.currentPoint, EStateM.get_bind_apply]
      cases session.context.stack <;> rfl
  | savePoint ref =>
      rw [runCommand, get_bind_apply] at failed
      cases resolved : session.resolvePoint ref <;> rw [resolved] at failed <;> cases failed
  | extractMap exprs =>
      rw [runCommand, get_bind_apply] at failed
      cases resolved : exprs.mapM session.vars.expr with
      | error undefined =>
          rw [resolved] at failed
          cases failed
      | ok exprs =>
          rw [resolved] at failed
          exact extractMap_proper failed
  | extract expr =>
      rw [runCommand, get_bind_apply] at failed
      cases resolved : session.vars.expr expr with
      | error undefined =>
          rw [resolved] at failed
          cases failed
      | ok expr =>
          rw [resolved] at failed
          exact extract_proper failed
  | query query =>
      rw [runCommand, get_bind_apply] at failed
      cases asked : query.ask (session.vars.opNames session.context) session.context.module <;>
        rw [asked] at failed <;> cases failed
  | describeTensor | sameTensor | describe | tree => exact inspect_proper failed
  | clearPoints | truncatePoints | describeContext | clearExtraction => cases failed
  | alloc | allocTensor | build | buildValue | buildAll => cases passive

end Session

namespace Program

/-- **Nothing is built too early.** At every moment of a program, a command that does not ask for a
build itself does not fail for want of a loop variable, of storage or of the nest of a reduction,
nor does the construction of an operand; so none of the nodes that a constructor builds at once
does. Any node of the program that is ready can be built without such a failure. -/
theorem nothing_built_too_early (program : Program) {moment : Session}
    (passes : Session.Passes program.body (program.session .fresh) moment) :
    (∀ (label : Label) (command : Command), command.builds = false → ∀ error,
      (Session.runStatement (.command label command) moment).1.failure = some error →
        error.isPremature = false) ∧
    (∀ (operand : Operand) (action : BuildM Expr), moment.vars.operand operand = .ok action →
      ∀ error after, action moment.context = .error error after → error.isPremature = false) ∧
    ∀ (name : String) (expr : Expr), moment.vars.expr name = .ok expr →
      moment.context.isReady expr = true → ∀ error after,
        BuildM.build expr moment.context = .error error after → error.isPremature = false := by
  have holds : Pool.empty.Holds (program.session .fresh).vars := fun _ _ found => by cases found
  have start : (program.session .fresh).context.Poised .empty :=
    ⟨⟨⟨Pool.sound_empty _, fun _ _ found => by cases found⟩, fun _ member => member.elim⟩,
      fun _ member => member.elim⟩
  obtain ⟨-, pool, -, poised, held⟩ := passes.retains BuildM.poised_endures holds start
  refine ⟨fun label command passive error failed => ?_,
    fun operand action resolved error after ran => ?_,
    fun name expr found ready error after ran => ?_⟩
  · exact Session.runCommand_proper label.name passive held poised failed
  · exact ((held.operand resolved).proceeds_of_free poised).proper ran
  · have member := held.expr found
    exact (BuildM.build_proceeds poised.sound expr member _ poised.supplies ready).proper ran

/-- The statements in the body of a loop: the sum and the square are built at once. -/
def shiftedNodes : List Statement :=
  [.command ⟨some "next", false⟩ (.make (.binary .add (.var "i") (.int 1))),
    .command ⟨some "square", false⟩ (.make (.binary .mul (.var "i") (.var "i")))]

/-- A loop with this body. -/
def shiftedLoop : Statement :=
  .loop ⟨none, false⟩ (some "i") (.const 0) (.const 3) ⟨1, none, none, false⟩ shiftedNodes

/-- Loads the element of the tensor at an index. -/
def loadAt (index : String) : Statement :=
  .command ⟨some "element", false⟩ (.make (.load "x" [.var index]))

/-- A program in the in-place mode, with a function of this loop and a load after it at the sum. -/
def shiftedLoad : Program where
  mode := some .inPlace
  setting := none
  setup := []
  body :=
    [.command ⟨some "x", false⟩ (.placeholder "x" [4] .float32),
      .function ⟨none, false⟩ "f" ["x"] none [shiftedLoop, loadAt "next"]]

/-- The tensor of the program. -/
def shiftedTensor : Tensor := ⟨0, "x", [4], .float32⟩

/-- The session in which the body of the function begins. -/
def shiftedStart : Session :=
  let declared := (Session.runStatement (.command ⟨some "x", false⟩
    (.placeholder "x" [4] .float32)) (shiftedLoad.session .fresh)).2
  (Session.attempt (BuildM.beginFunction "f" [shiftedTensor]) declared).2.inside ⟨1⟩

/-- The session at the end of the body of the loop. -/
def shiftedInside : Session :=
  match Session.attempt (BuildM.beginLoop (.const 0) (.const 3) ⟨1, none, none, false⟩)
    shiftedStart with
  | (.ok (var, header), opened) =>
    shiftedNodes.foldl (fun session statement => (Session.runStatement statement session).2)
      (opened.insideLoop header var (some "i"))
  | (.error _, opened) => opened

/-- The session after the load. -/
def shiftedAfter : Session :=
  (Session.runStatement (loadAt "next") (Session.runStatement shiftedLoop shiftedStart).2).2

/-- Whether the node that a variable holds would be built too early. -/
def tooEarly (session : Session) (name : String) : Bool :=
  match session.vars.expr name with
  | .error _ => false
  | .ok node => match BuildM.build node session.context with
    | .ok _ _ => false
    | .error error _ => error.isPremature

theorem exists_of_tooEarly {session : Session} {name : String} (early : tooEarly session name) :
    ∃ node error after, session.vars.expr name = .ok node ∧
      BuildM.build node session.context = .error error after ∧ error.isPremature = true := by
  unfold tooEarly at early
  split at early
  · cases early
  rename_i node found
  split at early
  · cases early
  rename_i error after ran
  exact ⟨node, error, after, found, ran, early⟩

theorem shiftedInside_passes :
    Session.Passes shiftedLoad.body (shiftedLoad.session .fresh) shiftedInside :=
  .later (.function rfl rfl (.loop rfl rfl rfl (.later (.later .here))))

theorem shiftedAfter_passes :
    Session.Passes shiftedLoad.body (shiftedLoad.session .fresh) shiftedAfter :=
  .later (.function rfl rfl (.later (.later .here)))

/-- In the loop a load at the sum is built at once, and a load at the square is refused. After the
loop the sum is not bound any more. A load at it would fail, so it was not ready and not built. -/
theorem shiftedLoad_in_time :
    (Session.runStatement (loadAt "next") shiftedInside).2.context.module.size =
        shiftedInside.context.module.size + 1 ∧
      (∃ error, (Session.runStatement (loadAt "square") shiftedInside).1.failure = some error ∧
        error.isPremature = false) ∧
      ∃ load, shiftedAfter.vars.expr "element" = .ok load ∧
        shiftedAfter.context.isReady load = false := by
  obtain ⟨error, failed⟩ : ∃ error,
      (Session.runStatement (loadAt "square") shiftedInside).1.failure = some error :=
    Option.isSome_iff_exists.mp (by decide +kernel)
  have proper := (nothing_built_too_early shiftedLoad shiftedInside_passes).1 _ _ rfl error failed
  refine ⟨by decide +kernel, ⟨error, failed, proper⟩, ?_⟩
  have early : tooEarly shiftedAfter "element" := by decide +kernel
  obtain ⟨load, unbound, after, found, ran, premature⟩ := exists_of_tooEarly early
  refine ⟨load, found, ?_⟩
  rw [← Bool.not_eq_true]
  intro ready
  have proper := (nothing_built_too_early shiftedLoad shiftedAfter_passes).2.2 _ _ found ready
    _ _ ran
  rw [premature] at proper
  cases proper

end Program

end AffineKernel
