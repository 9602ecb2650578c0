import AffineKernel.Proofs.Modes.Sessions

/-!
# Commands in both modes

Commands that make no store and no call lead from paired sessions to paired
sessions (`Session.runCommand_proceeds`), also those that build, and those that
move the insertion point to the end of a block or before an operation that acts
(`PointRef.anchored`). In between two statements the modes differ by pure
operations only, so the same place is meant in both modes. A place before a pure
operation is not: where it is depends on the mode.

A store that is passed to be built right after its construction leads to paired
sessions as well, after the build (`Session.store_proceeds`).
-/

set_option autoImplicit false

namespace AffineKernel

open Context

/-! ## Success -/

mutual

/-- Whether a report is of something that was done: no variable stood for nothing, and all
statements of a body have succeeded. -/
def Report.succeeds : Report → Bool
  | .undefined _ => false
  | .body records _ => Record.allSucceed records
  | _ => true

/-- Whether a statement has succeeded. -/
def Record.succeeds : Record → Bool
  | .mk report failure _ _ => failure.isNone && report.succeeds

/-- Whether all statements of a list have succeeded. -/
def Record.allSucceed : List Record → Bool
  | [] => true
  | record :: rest => record.succeeds && Record.allSucceed rest

end

/-- Whether a step of a script has succeeded. -/
def Outcome.succeeds (outcome : Outcome) : Bool := outcome.2.isNone && outcome.1.succeeds

/-! ## Places -/

/-- Whether a place is the end of a block, or right before an operation that acts. -/
def PointRef.anchored (ref : PointRef) (session : Session) : Bool :=
  (session.resolvePoint ref).toOption.all fun point =>
    point.before.all fun id => session.context.module.acts id.index

theorem OpNames.eq_of_resolve {names : OpNames} {name : String} {id : OpId}
    (resolved : names.resolve name = .ok id) : names name = some id := by
  rw [OpNames.resolve] at resolved
  cases found : names name with
  | none =>
      rw [found] at resolved
      cases resolved
  | some known =>
      rw [found] at resolved
      cases resolved
      rfl

theorem OpNames.eq_of_mapM {names : OpNames} {name : String} {anchor : Option OpId}
    (resolved : (some name).mapM names.resolve = .ok anchor) :
    ∃ id, anchor = some id ∧ names name = some id := by
  rw [Option.mapM_some] at resolved
  cases found : names.resolve name with
  | error undefined =>
      rw [found] at resolved
      cases resolved
  | ok id =>
      rw [found] at resolved
      cases resolved
      exact ⟨id, rfl, eq_of_resolve found⟩

namespace Session

variable {permit : Permit} {pool : Pool} {first second after last : Session}

namespace Paired

variable (paired : Paired permit pool first second)
include paired

/-- What a name stands for in both sessions: operations that are peers with the same regions, or
such whose results are twins. -/
theorem opNames_match {name : String} {id partner : OpId}
    (named : first.vars.opNames first.context name = some id)
    (also : second.vars.opNames second.context name = some partner) :
    Module.Siblings first.context.module second.context.module id partner ∨
      ∃ position place, Module.Twins first.context.module second.context.module
        (.result id position) (.result partner place) := by
  have both := paired.vars name
  unfold Variables.opNames at named also
  cases held : first.vars.find? name with
  | none =>
      rw [held] at named
      cases named
  | some entity =>
      rw [held] at both named
      cases there : second.vars.find? name with
      | none =>
          rw [there] at both
          cases both
      | some mate =>
          rw [there] at both also
          cases both with
          | some same =>
          cases same with
          | tensor | slice => cases named
          | op siblings =>
              cases named
              cases also
              exact .inl siblings
          | expr expr =>
              dsimp only at named also
              cases bound : first.context.binding? expr.id with
              | none =>
                  rw [bound] at named
                  cases named
              | some binding =>
                  rw [bound] at named
                  cases twin : second.context.binding? expr.id with
                  | none =>
                      rw [twin] at also
                      cases also
                  | some partner =>
                      rw [twin] at also
                      cases paired.contexts.twinned.matched.twins bound twin with
                      | op siblings =>
                          cases named
                          cases also
                          exact .inl siblings
                      | @value value other twins =>
                          cases value with
                          | arg => cases named
                          | result op position =>
                              cases other with
                              | arg => cases also
                              | result op place =>
                                  cases named
                                  cases also
                                  exact .inr ⟨_, _, twins⟩

/-- A region of what a name stands for is the same block in both sessions. -/
theorem region?_eq {name : String} {id partner : OpId} {position : Nat} {block other : BlockId}
    (named : first.vars.opNames first.context name = some id)
    (also : second.vars.opNames second.context name = some partner)
    (found : first.context.module.region? id position = some block)
    (known : second.context.module.region? partner position = some other) : block = other := by
  rcases paired.opNames_match named also with siblings | ⟨_, _, tree, shows_, -⟩
  · exact Option.some.inj (found.symm.trans ((siblings.region?_eq position).trans known))
  · -- An operation with a result has no regions.
    rw [shows_.flat] at found
    cases found

theorem peers {name : String} {id partner : OpId}
    (named : first.vars.opNames first.context name = some id)
    (also : second.vars.opNames second.context name = some partner)
    (acts : first.context.module.acts id.index = true) :
    Module.Peers first.context.module second.context.module id partner := by
  rcases paired.opNames_match named also with siblings | ⟨_, _, twins⟩
  · exact siblings.peers
  · exact twins.peers acts

/-- A block that is named in both sessions. -/
theorem resolveBlock_eq {ref : BlockRef} {block other : BlockId}
    (found : ref.resolve (first.vars.opNames first.context) first.context.module = .ok block)
    (known : ref.resolve (second.vars.opNames second.context) second.context.module = .ok other) :
    block = other ∧ block.index < first.context.module.blocks.size := by
  cases ref with
  | body =>
      cases found
      cases known
      exact ⟨rfl, paired.rooted⟩
  | region name position =>
      obtain ⟨id, named, found⟩ := Except.bind_eq_ok found
      obtain ⟨partner, alsoNamed, known⟩ := Except.bind_eq_ok known
      have named := OpNames.eq_of_resolve named
      have alsoNamed := OpNames.eq_of_resolve alsoNamed
      cases region : first.context.module.region? id position with
      | none =>
          rw [region] at found
          cases found
      | some inside =>
          rw [region] at found
          cases found
          cases twin : second.context.module.region? partner position with
          | none =>
              rw [twin] at known
              cases known
          | some there =>
              rw [twin] at known
              cases known
              obtain ⟨op, listed, owned⟩ := Option.bind_eq_some_iff.mp region
              obtain ⟨-, found, there, -⟩ :=
                paired.contexts.twinned.aligned.parallel.left.forest.region listed _
                  (List.mem_of_getElem? owned)
              exact ⟨paired.region?_eq named alsoNamed region twin,
                Module.index_lt_of_block? there⟩

/-- A place that is anchored is the same in both sessions. -/
theorem resolvePoint_same {ref : PointRef} (anchored : ref.anchored first = true)
    {point place : InsertionPoint} (found : first.resolvePoint ref = .ok point)
    (known : second.resolvePoint ref = .ok place) :
    Module.SamePlace first.context.module second.context.module point place := by
  rw [PointRef.anchored, found] at anchored
  obtain ⟨block, resolved, found⟩ := Except.bind_eq_ok found
  obtain ⟨other, alsoResolved, known⟩ := Except.bind_eq_ok known
  obtain ⟨rfl, small⟩ := paired.resolveBlock_eq resolved alsoResolved
  obtain ⟨before, here, same⟩ := Except.bind_eq_ok found
  cases same
  obtain ⟨anchor, there, same⟩ := Except.bind_eq_ok known
  cases same
  refine ⟨rfl, small, ?_⟩
  cases named : ref.before with
  | none =>
      rw [named] at here there
      cases here
      cases there
      exact .none
  | some name =>
      rw [named] at here there
      obtain ⟨id, rfl, held⟩ := OpNames.eq_of_mapM here
      obtain ⟨partner, rfl, alsoHeld⟩ := OpNames.eq_of_mapM there
      exact .some (paired.peers held alsoHeld anchored)

end Paired

end Session

/-! ## Commands without effects -/

/-- Whether a recipe makes a store. -/
def Recipe.isStore : Recipe → Bool
  | .store .. | .storeSlice .. | .setScalar .. => true
  | _ => false

namespace Command

/-- Whether a command makes no store and no call. -/
def isPlain : Command → Bool
  | .make recipe => !recipe.isStore && !recipe.isCall
  | _ => true

/-- The tensor that a command makes a load of. A tensor or a slice is loaded from when it is indexed
in full. -/
def loads (vars : Variables) : Command → List Tensor
  | .make recipe => recipe.loads vars
  | .index terms name =>
    (vars.tensor name).toOption.toList.filter fun tensor => terms.length = tensor.rank
  | .indexSlice terms name =>
    ((vars.slice name).toOption.toList.filter fun slice =>
      slice.indices.length + terms.length = slice.tensor.rank).map Slice.tensor
  | _ => []

/-- The tensor that a command makes a store to. -/
def stores (vars : Variables) : Command → List Tensor
  | .make recipe => recipe.stores vars
  | _ => []

end Command

/-- Each item of a list is looked up. -/
theorem length_of_mapM_ok {α β : Type} {look : α → Resolved β} {items : List α} {results : List β}
    (resolved : items.mapM look = .ok results) : results.length = items.length := by
  induction items generalizing results with
  | nil =>
      cases resolved
      rfl
  | cons item rest ih =>
      rw [List.mapM_cons] at resolved
      obtain ⟨first, -, resolved⟩ := Except.bind_eq_ok resolved
      obtain ⟨others, known, same⟩ := Except.bind_eq_ok resolved
      cases same
      exact congrArg (· + 1) (ih known)

/-- An access with the indices that were looked up makes the same in both modes. -/
theorem Pool.Holds.indexSlice_concurs {permit : Permit} {pool : Pool} {vars : Variables}
    (holds : pool.Holds vars) {slice : Slice} {terms : List IndexTerm} {args : List IndexArg}
    (sliced : pool.slice slice) (known : terms.mapM vars.indexArg = .ok args)
    (loads : slice.indices.length + terms.length = slice.tensor.rank →
      permit.loads slice.tensor) :
    BuildM.Concurs permit pool (BuildM.indexSlice slice args) fun wider made =>
      wider.indexed made := by
  refine BuildM.Plans.concurs
    (BuildM.indexSlice_plans sliced (holds.indexArgs known) fun full => loads ?_)
  rw [← length_of_mapM_ok known, full]

/-- A recipe that makes neither stores nor calls makes nodes that may be recorded quietly. -/
theorem Recipe.within_quiet {permit : Permit} {vars : Variables} {recipe : Recipe}
    (plain : (Command.make recipe).isPlain = true)
    (loads : ∀ tensor ∈ recipe.loads vars, permit.loads tensor) :
    recipe.Within permit.quiet vars := by
  obtain ⟨store, call⟩ : recipe.isStore = false ∧ recipe.isCall = false := by
    simpa [Command.isPlain] using plain
  refine ⟨loads, fun tensor listed => ?_, fun calls => ?_⟩
  · cases recipe <;> first | exact absurd listed List.not_mem_nil | cases store
  · rw [call] at calls
    cases calls

namespace Session

variable {permit : Permit} {pool : Pool} {first second after last : Session}

/-- Commands that only look at a session. -/
theorem inspect_proceeds {α β : Type} {plan : Variables → Resolved α}
    {leap : Variables → Resolved β}
    {report : α → SessionM Report} {note : β → SessionM Report}
    (paired : Paired permit pool first second)
    (reads : ∀ a (session : Session), (report a session).2 = session)
    (notes : ∀ b (session : Session), (note b session).2 = session) :
    Proceeds permit pool first second (inspect plan report first).2
      (inspect leap note second).2 := by
  have stays : ∀ {γ : Type} {look : Variables → Resolved γ} {tell : γ → SessionM Report}
      (session : Session), (∀ c (session : Session), (tell c session).2 = session) →
      (inspect look tell session).2 = session := by
    intro γ look tell session reads
    rw [inspect, get_bind_apply]
    cases look session.vars with
    | error name => rfl
    | ok c => exact reads c session
  rw [stays first reads, stays second notes]
  exact .refl paired

/-- Only events and references of accesses differ. -/
structure Idle (before after : Session) : Prop where
  still : BuildM.Still before.context after.context
  stack : after.context.stack = before.context.stack
  vars : after.vars = before.vars

theorem Idle.refl (session : Session) : Idle session session :=
  ⟨⟨rfl, rfl, rfl, rfl, rfl, rfl, rfl⟩, rfl, rfl⟩

theorem Paired.idle (paired : Paired permit pool first second) (left : Idle first after)
    (right : Idle second last) : Proceeds permit pool first second after last := by
  obtain ⟨still, stack, vars⟩ := left
  obtain ⟨also, alsoStack, alsoVars⟩ := right
  have turned := paired.contexts.turn (paired.contexts.twinned.aligned.alike
    ⟨still.module, still.storage, stack, still.nextId⟩
    ⟨also.module, also.storage, alsoStack, also.nextId⟩)
    (.of_same still.module still.storage still.mode)
    (.of_same also.module also.storage also.mode) still.bindings also.bindings still.nextId
  exact paired.proceed turned vars alsoVars

theorem extractMap_idle (exprs : List Expr) (session : Session) :
    Idle session (extractMap exprs session).2 := by
  rw [extractMap, get_bind_apply]
  cases Extraction.access exprs session.refs <;>
    exact ⟨⟨rfl, rfl, rfl, rfl, rfl, rfl, rfl⟩, rfl, rfl⟩

/-- Reading indices and asking questions. -/
theorem runCommand_idle (name : Option String) (session : Session) {command : Command}
    (asks : (∃ exprs, command = .extractMap exprs) ∨ (∃ expr, command = .extract expr) ∨
      command = .clearExtraction ∨ ∃ query, command = .query query) :
    Idle session (runCommand name command session).2 := by
  rcases asks with ⟨exprs, rfl⟩ | ⟨expr, rfl⟩ | rfl | ⟨query, rfl⟩
  · rw [runCommand, get_bind_apply]
    cases exprs.mapM session.vars.expr with
    | error undefined => exact .refl session
    | ok exprs => exact extractMap_idle exprs session
  · rw [runCommand, get_bind_apply]
    cases session.vars.expr expr with
    | error undefined => exact .refl session
    | ok expr => exact ⟨⟨rfl, rfl, rfl, rfl, rfl, rfl, rfl⟩, rfl, rfl⟩
  · exact ⟨⟨rfl, rfl, rfl, rfl, rfl, rfl, rfl⟩, rfl, rfl⟩
  · rw [runCommand, get_bind_apply]
    cases query.ask (session.vars.opNames session.context) session.context.module with
    | error undefined => exact .refl session
    | ok asked => exact ⟨⟨rfl, rfl, rfl, rfl, rfl, rfl, rfl⟩, rfl, rfl⟩

/-- Commands that make the same in both sessions. -/
theorem perform_concurs {α : Type} {plan : Variables → Resolved (BuildM α)}
    {report : α → SessionM Report} (good : Pool → α → Prop)
    (paired : Paired permit pool first second)
    (same : plan first.vars = plan second.vars)
    (concurs : ∀ action, plan first.vars = .ok action → BuildM.Concurs permit pool action good)
    (notes : ∀ {wider : Pool} {a : α} {after last : Session}, good wider a →
      Paired permit wider after last → Notes permit wider after last (report a after).2
        (report a last).2)
    (clean : (perform plan report first).1.2 = none)
    (alsoClean : (perform plan report second).1.2 = none) :
    Proceeds permit pool first second (perform plan report first).2
      (perform plan report second).2 := by
  refine perform_proceeds (fun wider a b => a = b ∧ good wider a) paired same ?_ ?_ clean
    alsoClean
  · intro action resolved
    refine (concurs action resolved paired.contexts).mono ?_
    rintro a b after last ⟨equal, wider, forward, made⟩
    exact ⟨wider, forward, equal, made⟩
  · rintro wider a _ after last ⟨rfl, made⟩ paired
    exact notes made paired

/-- Commands that only build. -/
theorem perform_forward {α : Type} {plan : Variables → Resolved (BuildM α)}
    {report : α → SessionM Report} (paired : Paired permit pool first second)
    (same : plan first.vars = plan second.vars)
    (builds : ∀ action, plan first.vars = .ok action →
      Both action action first.context second.context fun _ _ after last =>
        Context.Forward permit pool first.context second.context after last pool)
    (notes : ∀ (a : α) (session : Session), (report a session).2 = session)
    (clean : (perform plan report first).1.2 = none)
    (alsoClean : (perform plan report second).1.2 = none) :
    Proceeds permit pool first second (perform plan report first).2
      (perform plan report second).2 := by
  refine perform_proceeds (fun _ _ _ => True) paired same ?_ ?_ clean alsoClean
  · intro action resolved
    exact (builds action resolved).mono fun _ _ _ _ forward => ⟨pool, forward, trivial⟩
  · intro wider a b after last _ paired
    rw [notes, notes]
    exact notes_nothing paired

theorem clean_of_succeeds {outcome : Outcome} (succeeds : Outcome.succeeds outcome = true) :
    outcome.2 = none := by
  rw [Outcome.succeeds, Bool.and_eq_true] at succeeds
  exact Option.isNone_iff_eq_none.mp succeeds.1

/-- An anchored place is saved in both sessions. -/
theorem savePoint_proceeds {name : Option String} {ref : PointRef}
    (anchored : ref.anchored first = true) (paired : Paired permit pool first second)
    (succeeds : Outcome.succeeds (runCommand name (.savePoint ref) first).1 = true)
    (alsoSucceeds : Outcome.succeeds (runCommand name (.savePoint ref) second).1 = true) :
    Proceeds permit pool first second (runCommand name (.savePoint ref) first).2
      (runCommand name (.savePoint ref) second).2 := by
  rw [runCommand, get_bind_apply] at succeeds alsoSucceeds
  rw [runCommand, get_bind_apply, get_bind_apply]
  cases resolved : first.resolvePoint ref with
  | error undefined =>
      rw [resolved] at succeeds
      cases succeeds
  | ok point =>
      cases also : second.resolvePoint ref with
      | error undefined =>
          rw [also] at alsoSucceeds
          cases alsoSucceeds
      | ok other =>
          exact paired.proceed
            (paired.contexts.save (paired.resolvePoint_same anchored resolved also)) rfl rfl

/-- **Commands keep sessions paired.** A command without effects that succeeds in both sessions,
and that gives no tensor a second storage, leads to paired sessions. -/
theorem runCommand_proceeds {command : Command} (plain : command.isPlain = true)
    (name : Option String) (paired : Paired permit pool first second)
    (loads : ∀ tensor ∈ command.loads first.vars, permit.loads tensor)
    (once : ∀ target tensor, command = .allocTensor target →
      first.vars.tensor target = .ok tensor → first.context.storage? tensor = none)
    (anchored : ∀ ref, command = .savePoint ref → ref.anchored first = true)
    (succeeds : Outcome.succeeds (runCommand name command first).1 = true)
    (alsoSucceeds : Outcome.succeeds (runCommand name command second).1 = true) :
    Proceeds permit pool first second (runCommand name command first).2
      (runCommand name command second).2 := by
  have clean := clean_of_succeeds succeeds
  have alsoClean := clean_of_succeeds alsoSucceeds
  have holds := paired.holds
  cases command with
  | make recipe =>
      refine perform_concurs (fun wider expr => wider.expr expr) paired
        (congrFun paired.vars.plan_eq recipe) ?_ ?_ clean alsoClean
      · intro action resolved
        exact (holds.recipe (Recipe.within_quiet plain loads) resolved).concurs
      · exact fun {wider a after last} member paired => notes_assign paired (.expr a) member name
  | placeholder tensor shape dtype =>
      refine perform_concurs (fun wider tensor => wider.tensor tensor) paired rfl ?_ ?_ clean
        alsoClean
      · intro action resolved
        cases resolved
        exact (BuildM.placeholder_plans tensor shape dtype).concurs
      · exact fun {wider a after last} member paired => notes_assign paired (.tensor a) member name
  | alloc tensor shape dtype =>
      refine perform_concurs (fun wider tensor => wider.tensor tensor) paired rfl ?_ ?_ clean
        alsoClean
      · intro action resolved
        cases resolved
        exact BuildM.alloc_concurs tensor shape dtype
      · exact fun {wider a after last} member paired => notes_assign paired (.tensor a) member name
  | allocTensor target =>
      refine perform_forward paired (by rw [paired.vars.tensor_eq]) ?_ (fun _ _ => rfl) clean
        alsoClean
      intro action resolved
      obtain ⟨tensor, found, same⟩ := Except.bind_eq_ok resolved
      cases same
      exact BuildM.allocTensor_forward paired.contexts
        (paired.contexts.sound.tensorBelow (holds.tensor found)) (once target tensor rfl found)
  | describeTensor tensor => exact inspect_proceeds paired (fun _ _ => rfl) fun _ _ => rfl
  | sameTensor => exact inspect_proceeds paired (fun _ _ => rfl) fun _ _ => rfl
  | index terms tensor =>
      refine perform_concurs (fun wider made => wider.indexed made) paired
        (by rw [paired.vars.indexArg_eq, paired.vars.tensor_eq]) ?_ ?_ clean alsoClean
      · intro action resolved
        obtain ⟨args, known, resolved⟩ := Except.bind_eq_ok resolved
        obtain ⟨target, found, same⟩ := Except.bind_eq_ok resolved
        cases same
        refine holds.indexSlice_concurs (BuildM.whole_slice (holds.tensor found)) known
          fun full => loads target ?_
        simp_all [Command.loads, Slice.whole, Except.toOption]
      · exact fun {wider a after last} member paired => notes_indexed paired member name
  | indexSlice terms slice =>
      refine perform_concurs (fun wider made => wider.indexed made) paired
        (by rw [paired.vars.indexArg_eq, paired.vars.slice_eq]) ?_ ?_ clean alsoClean
      · intro action resolved
        obtain ⟨args, known, resolved⟩ := Except.bind_eq_ok resolved
        obtain ⟨target, found, same⟩ := Except.bind_eq_ok resolved
        cases same
        refine holds.indexSlice_concurs (holds.slice found) known fun full => loads target.tensor ?_
        simp_all [Command.loads, Except.toOption]
      · exact fun {wider a after last} member paired => notes_indexed paired member name
  | promote lhs rhs kind =>
      refine perform_concurs (fun _ _ => True) paired (by rw [paired.vars.expr_eq]) ?_ ?_ clean
        alsoClean
      · intro action resolved
        obtain ⟨left, leftFound, resolved⟩ := Except.bind_eq_ok resolved
        obtain ⟨right, rightFound, same⟩ := Except.bind_eq_ok resolved
        cases same
        cases kind with
        | none =>
            exact ((BuildM.promote_plans (holds.expr leftFound) (holds.expr rightFound)).mono
              fun _ _ _ _ => trivial).concurs
        | some kind =>
            exact ((BuildM.promoteBits_plans kind (holds.expr leftFound)
              (holds.expr rightFound)).mono fun _ _ _ _ => trivial).concurs
      · exact fun {wider a after last} _ paired => notes_nothing paired
  | build target =>
      refine perform_forward paired (by rw [paired.vars.expr_eq]) ?_ (fun _ _ => rfl) clean
        alsoClean
      intro action resolved
      obtain ⟨expr, found, same⟩ := Except.bind_eq_ok resolved
      cases same
      exact (BuildM.build_forward paired.contexts (holds.expr found)).mono fun _ _ _ _ done =>
        done.1
  | buildValue target =>
      refine perform_forward paired (by rw [paired.vars.expr_eq]) ?_ (fun _ _ => rfl) clean
        alsoClean
      intro action resolved
      obtain ⟨expr, found, same⟩ := Except.bind_eq_ok resolved
      cases same
      exact (BuildM.buildValue_forward paired.contexts (holds.expr found)).mono
        fun _ _ _ _ done => done.1
  | buildAll targets =>
      refine perform_forward paired (by rw [paired.vars.expr_eq]) ?_ (fun _ _ => rfl) clean
        alsoClean
      intro action resolved
      obtain ⟨exprs, found, same⟩ := Except.bind_eq_ok resolved
      cases same
      exact BuildM.buildAll_forward paired.contexts
        (holds.exprs found)
  | savePoint ref => exact savePoint_proceeds (anchored ref rfl) paired succeeds alsoSucceeds
  | restorePoint =>
      refine perform_forward paired rfl ?_ (fun _ _ => rfl) clean alsoClean
      intro action resolved
      cases resolved
      exact BuildM.restorePoint_forward paired.contexts
  | currentPoint =>
      refine perform_forward paired rfl ?_ (fun _ _ => rfl) clean alsoClean
      intro action resolved
      cases resolved
      exact BuildM.currentPoint_forward paired.contexts
  | clearPoints => exact paired.proceed (paired.contexts.truncate 0) rfl rfl
  | truncatePoints depth =>
      exact paired.proceed (paired.contexts.truncate depth) rfl rfl
  | describe expr => exact inspect_proceeds paired (fun _ _ => rfl) fun _ _ => rfl
  | describeContext => exact .refl paired
  | tree expr => exact inspect_proceeds paired (fun _ _ => rfl) fun _ _ => rfl
  | extractMap exprs =>
      exact paired.idle (runCommand_idle name _ (.inl ⟨exprs, rfl⟩))
        (runCommand_idle name _ (.inl ⟨exprs, rfl⟩))
  | extract expr =>
      exact paired.idle (runCommand_idle name _ (.inr (.inl ⟨expr, rfl⟩)))
        (runCommand_idle name _ (.inr (.inl ⟨expr, rfl⟩)))
  | clearExtraction =>
      exact paired.idle (runCommand_idle name _ (.inr (.inr (.inl rfl))))
        (runCommand_idle name _ (.inr (.inr (.inl rfl))))
  | query query =>
      exact paired.idle (runCommand_idle name _ (.inr (.inr (.inr ⟨query, rfl⟩))))
        (runCommand_idle name _ (.inr (.inr (.inr ⟨query, rfl⟩))))

end Session

/-! ## Stores -/

/-- What the recipe of a store resolves to. -/
theorem Pool.Holds.stores {permit : Permit} {pool : Pool} {vars : Variables}
    (holds : pool.Holds vars)
    {recipe : Recipe} {action : BuildM Expr} (isStore : recipe.isStore = true)
    (resolved : recipe.plan vars = .ok action) :
    (∃ error, action = throw error) ∨ ∃ value slice args,
      action = BuildM.storeSlice value slice args ∧
      BuildM.Plans permit.quiet pool value (fun wider expr => wider.expr expr) ∧ pool.slice slice ∧
      (∀ arg ∈ args, pool.index arg) ∧ slice.tensor ∈ recipe.stores vars := by
  cases recipe with
  | store value tensor terms =>
      obtain ⟨made, valueMade, resolved⟩ := Except.bind_eq_ok resolved
      obtain ⟨tensor, found, resolved⟩ := Except.bind_eq_ok resolved
      obtain ⟨args, known, same⟩ := Except.bind_eq_ok resolved
      cases same
      exact .inr ⟨made, .whole tensor, args, rfl, holds.operand valueMade,
        BuildM.whole_slice (holds.tensor found), holds.indexArgs known, by
          simp [Recipe.stores, found, Except.toOption, Slice.whole]⟩
  | storeSlice value slice terms =>
      obtain ⟨made, valueMade, resolved⟩ := Except.bind_eq_ok resolved
      obtain ⟨slice, found, resolved⟩ := Except.bind_eq_ok resolved
      obtain ⟨args, known, same⟩ := Except.bind_eq_ok resolved
      cases same
      exact .inr ⟨made, slice, args, rfl, holds.operand valueMade, holds.slice found,
        holds.indexArgs known, by simp [Recipe.stores, found, Except.toOption]⟩
  | setScalar value tensor =>
      obtain ⟨made, valueMade, resolved⟩ := Except.bind_eq_ok resolved
      obtain ⟨tensor, found, same⟩ := Except.bind_eq_ok resolved
      cases same
      rw [BuildM.setScalar, BuildM.scalarIndices]
      split
      · refine .inr ⟨made, .whole tensor, _, rfl, holds.operand valueMade,
          BuildM.whole_slice (holds.tensor found), fun arg listed => ?_, by
            simp [Recipe.stores, found, Except.toOption, Slice.whole]⟩
        rw [List.eq_of_mem_replicate listed]
        trivial
      · exact .inl ⟨_, rfl⟩
  | _ => cases isStore

namespace Session

variable {permit : Permit} {pool : Pool} {first second : Session}

/-- The steps of a recipe that has succeeded. -/
theorem runCommand_make_ok {session : Session} {name : Option String} {recipe : Recipe}
    (succeeds : Outcome.succeeds (runCommand name (.make recipe) session).1 = true) :
    ∃ action expr after, recipe.plan session.vars = .ok action ∧
      action session.context = .ok expr after ∧
      (runCommand name (.make recipe) session).2 =
        (assign name (.expr expr) { session with context := after }).2 := by
  rw [runCommand, perform, get_bind_apply] at succeeds ⊢
  cases resolved : recipe.plan session.vars with
  | error undefined =>
      rw [resolved] at succeeds
      cases succeeds
  | ok action =>
      rw [resolved] at succeeds
      dsimp only at succeeds ⊢
      rw [bind_apply, attempt_apply] at succeeds ⊢
      cases ran : action session.context with
      | ok expr after => exact ⟨action, expr, after, rfl, ran, rfl⟩
      | error error after =>
          rw [ran] at succeeds
          cases succeeds

/-- **Stores built at once keep sessions paired.** A store that is passed to be built right after
its construction leads to paired sessions. -/
theorem store_proceeds {recipe : Recipe} {name : String} {label : Option String}
    (isStore : recipe.isStore = true) (paired : Paired permit pool first second)
    (stores : ∀ tensor ∈ recipe.stores first.vars, permit.stores tensor)
    (made : Outcome.succeeds (runCommand (some name) (.make recipe) first).1 = true)
    (alsoMade : Outcome.succeeds (runCommand (some name) (.make recipe) second).1 = true)
    (built : Outcome.succeeds (runCommand label (.build name)
      (runCommand (some name) (.make recipe) first).2).1 = true)
    (alsoBuilt : Outcome.succeeds (runCommand label (.build name)
      (runCommand (some name) (.make recipe) second).2).1 = true) :
    Proceeds permit pool first second
      (runCommand label (.build name) (runCommand (some name) (.make recipe) first).2).2
      (runCommand label (.build name) (runCommand (some name) (.make recipe) second).2).2 := by
  obtain ⟨action, expr, middle, resolved, ran, named⟩ := runCommand_make_ok made
  obtain ⟨_, partner, between, again, done, alsoNamed⟩ := runCommand_make_ok alsoMade
  cases again.symm.trans ((congrFun paired.vars.plan_eq recipe).symm.trans resolved)
  rw [named] at built ⊢
  rw [alsoNamed] at alsoBuilt ⊢
  have stored : Both action action first.context second.context fun a b middle between => a = b ∧
      ∃ wider : Pool, wider.expr a ∧ Both (BuildM.build a) (BuildM.build a) middle between
        fun _ _ after last => Context.Forward permit pool first.context second.context after last
          wider := by
    rcases paired.holds.stores isStore resolved with ⟨error, rfl⟩ | ⟨value, slice, args, rfl, parts⟩
    · exact Both.throw_left _ _
    · obtain ⟨plans, whole, members, listed⟩ := parts
      exact BuildM.storeSlice_both plans whole members (stores _ listed) paired.contexts
  obtain ⟨rfl, wider, member, both⟩ := stored _ _ _ _ ran done
  have known : ∀ (session : Session) (context : Context),
      (assign (some name) (.expr expr) { session with context := context }).2.vars.expr name =
        .ok expr := by
    intro session context
    change Variables.expr (session.vars.insert name (.expr expr)) name = _
    rw [Variables.expr, Table.find?_insert, if_pos rfl]
  obtain ⟨_, after, building, ended⟩ :=
    runCommand_build_ok (known first middle) (clean_of_succeeds built)
  obtain ⟨_, last, alsoBuilding, alsoEnded⟩ :=
    runCommand_build_ok (known second between) (clean_of_succeeds alsoBuilt)
  rw [ended, alsoEnded]
  have forward := both _ _ _ _ (attempt_eq_ok building) (attempt_eq_ok alsoBuilding)
  refine ⟨wider, forward, forward.paired, ?_, ?_, ?_⟩
  · rw [attempt_vars building, attempt_vars alsoBuilding]
    exact (paired.vars.grow forward.left.module forward.right.module).insert (.expr expr) name
  · rw [attempt_vars building]
    exact (forward.le.holds paired.holds).insert (show wider.entity (.expr expr) from member) name
  · exact forward.left.module.block_small paired.rooted

end Session

end AffineKernel
