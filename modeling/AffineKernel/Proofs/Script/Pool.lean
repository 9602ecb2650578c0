import AffineKernel.Proofs.Build.Nodes
import AffineKernel.Proofs.Script.Bodies

/-!
# The nodes that a script has constructed

Everything that the variables of a session hold was constructed in it: there is
a pool with all of it, and the session upholds the pool (`Session.Within`).
Every command keeps this, in either mode and also when it fails; the pool only
becomes wider (`Session.runCommand_widens`). Neither does it matter what a
script does to the stack of insertion points. The same holds of the steps that
open and close loops and conditionals.
-/

set_option autoImplicit false

namespace AffineKernel

namespace Recipe

/-- The tensor that a recipe makes a load of. -/
def loads (vars : Variables) : Recipe → List Tensor
  | .load tensor _ | .scalar tensor => (vars.tensor tensor).toOption.toList
  | _ => []

/-- The tensor that a recipe makes a store to. -/
def stores (vars : Variables) : Recipe → List Tensor
  | .store _ tensor _ | .setScalar _ tensor => (vars.tensor tensor).toOption.toList
  | .storeSlice _ slice _ => ((vars.slice slice).toOption.map Slice.tensor).toList
  | _ => []

/-- Whether a recipe makes a call. -/
def isCall : Recipe → Bool
  | .call .. => true
  | _ => false

/-- A recipe makes nodes of a permit. -/
structure Within (permit : Permit) (vars : Variables) (recipe : Recipe) : Prop where
  loads : ∀ tensor ∈ recipe.loads vars, permit.loads tensor
  stores : ∀ tensor ∈ recipe.stores vars, permit.stores tensor
  calls : recipe.isCall = true → permit.calls

theorem within_all (vars : Variables) (recipe : Recipe) : recipe.Within .all vars :=
  ⟨fun _ _ => trivial, fun _ _ => trivial, fun _ => trivial⟩

end Recipe

namespace Pool

/-- Something that a variable may hold, over nodes and tensors of a pool. -/
def entity (pool : Pool) : Entity → Prop
  | .expr expr => pool.expr expr
  | .tensor tensor => pool.tensor tensor
  | .slice slice => pool.slice slice
  | .op _ => True

/-- All that variables hold is over nodes and tensors of a pool. -/
def Holds (pool : Pool) (vars : Variables) : Prop :=
  ∀ name entity, vars.find? name = some entity → pool.entity entity

variable {pool wider : Pool} {vars : Variables}

theorem Le.entity (le : pool.Le wider) {entity : Entity} (member : pool.entity entity) :
    wider.entity entity := by
  cases entity with
  | expr expr => exact le.expr member
  | tensor tensor => exact le.tensor member
  | slice slice => exact le.slice member
  | op id => trivial

theorem Le.holds (le : pool.Le wider) (holds : pool.Holds vars) : wider.Holds vars :=
  fun name entity found => le.entity (holds name entity found)

theorem Holds.insert (holds : pool.Holds vars) {entity : Entity} (member : pool.entity entity)
    (name : String) : pool.Holds (vars.insert name entity) := by
  intro other found known
  rw [Table.find?_insert] at known
  split at known
  · exact Option.some.inj known ▸ member
  · exact holds other found known

namespace Holds

variable (holds : pool.Holds vars)
include holds

theorem expr {name : String} {expr : Expr} (resolved : vars.expr name = .ok expr) :
    pool.expr expr := by
  unfold Variables.expr at resolved
  split at resolved
  · rename_i found known
    cases resolved
    exact holds name _ known
  · cases resolved

theorem tensor {name : String} {tensor : Tensor} (resolved : vars.tensor name = .ok tensor) :
    pool.tensor tensor := by
  unfold Variables.tensor at resolved
  split at resolved
  · rename_i found known
    cases resolved
    exact holds name _ known
  · cases resolved

theorem slice {name : String} {slice : Slice} (resolved : vars.slice name = .ok slice) :
    pool.slice slice := by
  unfold Variables.slice at resolved
  split at resolved
  · rename_i found known
    cases resolved
    exact holds name _ known
  · cases resolved

theorem indexArg {term : IndexTerm} {arg : IndexArg} (resolved : vars.indexArg term = .ok arg) :
    pool.index arg := by
  cases term with
  | var name =>
      obtain ⟨expr, found, same⟩ := Except.bind_eq_ok resolved
      cases same
      exact holds.expr found
  | const value =>
      cases resolved
      trivial

theorem bound {term : IndexTerm} {bound : Bound} (resolved : vars.bound term = .ok bound) :
    ∀ expr ∈ bound.exprs, pool.expr expr := by
  cases term with
  | var name =>
      obtain ⟨expr, found, same⟩ := Except.bind_eq_ok resolved
      cases same
      simpa [Bound.exprs] using holds.expr found
  | const value =>
      cases resolved
      simp [Bound.exprs]

theorem operand {permit : Permit} {operand : Operand} {action : BuildM Expr}
    (resolved : vars.operand operand = .ok action) :
    BuildM.Plans permit pool action fun wider expr => wider.expr expr := by
  cases operand with
  | var name =>
      obtain ⟨expr, found, same⟩ := Except.bind_eq_ok resolved
      cases same
      exact BuildM.Plans.pure (holds.expr found)
  | int value =>
      cases resolved
      exact (BuildM.constant_plans _ _).mono fun _ _ _ made => made.1
  | float value =>
      cases resolved
      exact (BuildM.constant_plans _ _).mono fun _ _ _ made => made.1
  | single value =>
      cases resolved
      exact (BuildM.constant_plans _ _).mono fun _ _ _ made => made.1

end Holds

/-- What each look-up of a list has found. -/
theorem mem_of_mapM_ok {α β : Type} {look : α → Resolved β} {good : β → Prop}
    (each : ∀ a b, look a = .ok b → good b) {items : List α} {results : List β}
    (resolved : items.mapM look = .ok results) : ∀ b ∈ results, good b := by
  induction items generalizing results with
  | nil =>
      cases resolved
      simp
  | cons item rest ih =>
      rw [List.mapM_cons] at resolved
      obtain ⟨first, found, resolved⟩ := Except.bind_eq_ok resolved
      obtain ⟨others, foundRest, same⟩ := Except.bind_eq_ok resolved
      cases same
      intro b member
      rcases List.mem_cons.mp member with rfl | later
      · exact each item _ found
      · exact ih foundRest b later

theorem Holds.exprs (holds : pool.Holds vars) {names : List String} {found : List Expr}
    (known : names.mapM vars.expr = .ok found) : ∀ expr ∈ found, pool.expr expr :=
  mem_of_mapM_ok (fun _ _ => holds.expr) known

theorem Holds.tensors (holds : pool.Holds vars) {names : List String} {found : List Tensor}
    (known : names.mapM vars.tensor = .ok found) : ∀ tensor ∈ found, pool.tensor tensor :=
  mem_of_mapM_ok (fun _ _ => holds.tensor) known

theorem Holds.indexArgs (holds : pool.Holds vars) {terms : List IndexTerm} {found : List IndexArg}
    (known : terms.mapM vars.indexArg = .ok found) : ∀ arg ∈ found, pool.index arg :=
  mem_of_mapM_ok (fun _ _ => holds.indexArg) known

/-- The expressions among the arguments of a call. -/
theorem Holds.callArgs (holds : pool.Holds vars) {names : List String} {args : List CallArg}
    (resolved : names.mapM vars.callArg = .ok args) :
    ∀ expr ∈ CallArg.exprs args, pool.expr expr := by
  have each : ∀ arg ∈ args, ∀ expr, arg = .expr expr → pool.expr expr := by
    refine mem_of_mapM_ok (fun name arg found expr same => ?_) resolved
    subst same
    unfold Variables.callArg at found
    split at found
    · rename_i known
      cases found
      exact holds name _ known
    · cases found
    · cases found
  clear resolved
  induction args with
  | nil => simp [CallArg.exprs]
  | cons arg rest ih =>
      have later := ih fun other member => each other (List.mem_cons_of_mem _ member)
      cases arg with
      | tensor tensor => exact later
      | expr value =>
          intro expr member
          rcases List.mem_cons.mp member with rfl | member
          · exact each (.expr expr) (by simp) expr rfl
          · exact later expr member

/-- Whatever a recipe of a permit resolves to makes a node of the pool. -/
theorem Holds.recipe (holds : pool.Holds vars) {permit : Permit} {recipe : Recipe}
    (within : recipe.Within permit vars) {action : BuildM Expr}
    (resolved : recipe.plan vars = .ok action) :
    BuildM.Plans permit pool action fun wider expr => wider.expr expr := by
  cases recipe with
  | constant value dtype =>
      cases resolved
      exact (BuildM.constant_plans value dtype).mono fun _ _ _ made => made.1
  | axis lower upper name =>
      obtain ⟨low, lowFound, resolved⟩ := Except.bind_eq_ok resolved
      obtain ⟨high, highFound, same⟩ := Except.bind_eq_ok resolved
      cases same
      exact BuildM.axis_plans (holds.bound lowFound) (holds.bound highFound) name
  | binary kind lhs rhs =>
      obtain ⟨left, leftMade, resolved⟩ := Except.bind_eq_ok resolved
      obtain ⟨right, rightMade, same⟩ := Except.bind_eq_ok resolved
      cases same
      refine (holds.operand leftMade).bind fun lhs wider le first => ?_
      refine ((le.holds holds).operand rightMade).bind fun rhs widest further second => ?_
      exact BuildM.binary_plans kind (further.expr first) second
  | compare kind lhs rhs =>
      obtain ⟨left, leftMade, resolved⟩ := Except.bind_eq_ok resolved
      obtain ⟨right, rightMade, same⟩ := Except.bind_eq_ok resolved
      cases same
      refine (holds.operand leftMade).bind fun lhs wider le first => ?_
      refine ((le.holds holds).operand rightMade).bind fun rhs widest further second => ?_
      exact BuildM.compare_plans kind (further.expr first) second
  | unary kind operand =>
      obtain ⟨made, operandMade, same⟩ := Except.bind_eq_ok resolved
      cases same
      exact (holds.operand operandMade).bind fun _ _ _ member => BuildM.unary_plans kind member
  | cast operand dtype =>
      obtain ⟨made, operandMade, same⟩ := Except.bind_eq_ok resolved
      cases same
      exact BuildM.cast_plans dtype (holds.operand operandMade)
  | select condition thenValue elseValue =>
      obtain ⟨c, conditionMade, resolved⟩ := Except.bind_eq_ok resolved
      obtain ⟨t, thenMade, resolved⟩ := Except.bind_eq_ok resolved
      obtain ⟨e, elseMade, same⟩ := Except.bind_eq_ok resolved
      cases same
      refine (holds.operand conditionMade).bind fun c second le first => ?_
      refine ((le.holds holds).operand thenMade).bind fun t third further chosen => ?_
      refine (((le.trans further).holds holds).operand elseMade).bind fun e last up other => ?_
      exact BuildM.select_plans ((further.trans up).expr first) (up.expr chosen) other
  | call callee args dtype =>
      obtain ⟨args, found, same⟩ := Except.bind_eq_ok resolved
      cases same
      exact BuildM.call_plans (within.calls rfl) callee dtype (holds.callArgs found)
  | getBit value bit =>
      obtain ⟨v, valueMade, resolved⟩ := Except.bind_eq_ok resolved
      obtain ⟨b, bitMade, same⟩ := Except.bind_eq_ok resolved
      cases same
      refine (holds.operand valueMade).bind fun v wider le first => ?_
      refine ((le.holds holds).operand bitMade).bind fun b widest further second => ?_
      exact BuildM.getBit_plans (further.expr first) second
  | bit load terms =>
      obtain ⟨source, found, resolved⟩ := Except.bind_eq_ok resolved
      obtain ⟨args, known, same⟩ := Except.bind_eq_ok resolved
      cases same
      exact BuildM.bit_plans (holds.expr found) (holds.indexArgs known)
  | reduce kind body axes =>
      obtain ⟨made, bodyMade, resolved⟩ := Except.bind_eq_ok resolved
      obtain ⟨axes, known, same⟩ := Except.bind_eq_ok resolved
      cases same
      refine (holds.operand bodyMade).bind fun body wider le first => ?_
      exact BuildM.reduce_plans kind first fun axis member =>
        le.expr (holds.exprs known axis member)
  | reduceInto kind body axes dtype =>
      obtain ⟨body, found, resolved⟩ := Except.bind_eq_ok resolved
      obtain ⟨axes, known, same⟩ := Except.bind_eq_ok resolved
      cases same
      exact BuildM.reduceInto_plans kind dtype (holds.expr found) (holds.exprs known)
  | load tensor terms =>
      obtain ⟨tensor, found, resolved⟩ := Except.bind_eq_ok resolved
      obtain ⟨args, known, same⟩ := Except.bind_eq_ok resolved
      cases same
      exact BuildM.load_plans (holds.tensor found) (holds.indexArgs known)
        (within.loads tensor (by simp [Recipe.loads, found, Except.toOption]))
  | store value tensor terms =>
      obtain ⟨made, valueMade, resolved⟩ := Except.bind_eq_ok resolved
      obtain ⟨tensor, found, resolved⟩ := Except.bind_eq_ok resolved
      obtain ⟨args, known, same⟩ := Except.bind_eq_ok resolved
      cases same
      exact BuildM.storeSlice_plans (holds.operand valueMade)
        (BuildM.whole_slice (holds.tensor found)) (holds.indexArgs known)
        (within.stores tensor (by simp [Recipe.stores, found, Except.toOption]))
  | storeSlice value slice terms =>
      obtain ⟨made, valueMade, resolved⟩ := Except.bind_eq_ok resolved
      obtain ⟨slice, found, resolved⟩ := Except.bind_eq_ok resolved
      obtain ⟨args, known, same⟩ := Except.bind_eq_ok resolved
      cases same
      exact BuildM.storeSlice_plans (holds.operand valueMade) (holds.slice found)
        (holds.indexArgs known)
        (within.stores slice.tensor (by simp [Recipe.stores, found, Except.toOption]))
  | scalar tensor =>
      obtain ⟨tensor, found, same⟩ := Except.bind_eq_ok resolved
      cases same
      exact BuildM.scalar_plans (holds.tensor found)
        (within.loads tensor (by simp [Recipe.loads, found, Except.toOption]))
  | setScalar value tensor =>
      obtain ⟨made, valueMade, resolved⟩ := Except.bind_eq_ok resolved
      obtain ⟨tensor, found, same⟩ := Except.bind_eq_ok resolved
      cases same
      exact BuildM.setScalar_plans (holds.operand valueMade) (holds.tensor found)
        (within.stores tensor (by simp [Recipe.stores, found, Except.toOption]))

end Pool

namespace Session

/-! ## Commands -/

section Commands

variable {α : Type} {pool : Pool} {session after : Session} {inv : Pool → Context → Prop}
  {relates : Context → Context → Prop}

/-- A step of a session: the contexts before and after are related, and an invariant holds within a
wider pool, which has all that the variables hold. -/
def Moves (inv : Pool → Context → Prop) (relates : Context → Context → Prop) (pool : Pool)
    (session after : Session) : Prop :=
  relates session.context after.context ∧
    ∃ wider, pool.Le wider ∧ inv wider after.context ∧ wider.Holds after.vars

variable (tracks : BuildM.Tracks inv relates)
include tracks

theorem Moves.of_still (holds : pool.Holds session.vars) (kept : inv pool session.context)
    (vars : after.vars = session.vars) (still : BuildM.Still session.context after.context) :
    Moves inv relates pool session after := by
  obtain ⟨step, kept⟩ := tracks.still still kept
  exact ⟨step, pool, .refl pool, kept, vars ▸ holds⟩

theorem Moves.refl (holds : pool.Holds session.vars) (kept : inv pool session.context) :
    Moves inv relates pool session session :=
  .of_still tracks holds kept rfl ⟨rfl, rfl, rfl, rfl, rfl, rfl, rfl⟩

/-- What is named afterwards is over the pool. -/
def Names (pool : Pool) (session after : Session) : Prop :=
  after.context = session.context ∧ (pool.Holds session.vars → pool.Holds after.vars)

omit tracks in
theorem assign_names (name : Option String) {entity : Entity} (member : pool.entity entity)
    (session : Session) : Names pool session (assign name entity session).2 := by
  cases name with
  | none => exact ⟨rfl, fun holds => holds⟩
  | some name => exact ⟨rfl, fun holds => holds.insert member name⟩

omit tracks in
/-- After a step that ran a build action with success, its result is in a wider pool. -/
theorem attempt_follows {action : BuildM α} {good : Pool → α → Prop} {a : α}
    (holds : pool.Holds session.vars) (kept : inv pool session.context)
    (follows : BuildM.Follows inv relates pool action good)
    (run : attempt action session = (.ok a, after)) :
    relates session.context after.context ∧ ∃ wider, pool.Le wider ∧ inv wider after.context ∧
      wider.Holds after.vars ∧ good wider a := by
  obtain ⟨step, wider, le, kept, made⟩ :=
    Session.attempt_ok (follows session.context kept) run
  exact ⟨step, wider, le, kept, attempt_vars run ▸ le.holds holds, made⟩

omit tracks in
theorem attempt_moves {action : BuildM α} {good : Pool → α → Prop}
    (holds : pool.Holds session.vars) (kept : inv pool session.context)
    (follows : BuildM.Follows inv relates pool action good) :
    Moves inv relates pool session (attempt action session).2 := by
  rcases ran : attempt action session with ⟨result, after⟩
  cases result with
  | ok a =>
      obtain ⟨step, wider, le, kept, held, -⟩ := attempt_follows holds kept follows ran
      exact ⟨step, wider, le, kept, held⟩
  | error error =>
      obtain ⟨step, wider, le, kept⟩ :=
        Session.attempt_error (follows session.context kept) ran
      exact ⟨step, wider, le, kept, attempt_vars ran ▸ le.holds holds⟩

theorem perform_moves {plan : Variables → Resolved (BuildM α)} {report : α → SessionM Report}
    (good : Pool → α → Prop) (holds : pool.Holds session.vars) (kept : inv pool session.context)
    (follows : ∀ {action : BuildM α}, plan session.vars = .ok action →
      BuildM.Follows inv relates pool action good)
    (reports : ∀ {pool : Pool} (a : α) (session : Session), good pool a →
      Names pool session (report a session).2) :
    Moves inv relates pool session (perform plan report session).2 := by
  rw [perform, get_bind_apply]
  cases resolved : plan session.vars with
  | error name => exact .refl tracks holds kept
  | ok action =>
      dsimp only
      rw [bind_apply]
      have moved := attempt_moves holds kept (follows resolved)
      rcases ran : attempt action session with ⟨result, after⟩
      rw [ran] at moved
      cases result with
      | ok a =>
          obtain ⟨step, wider, le, kept, held, made⟩ :=
            attempt_follows holds kept (follows resolved) ran
          obtain ⟨same, named⟩ := reports a after made
          change Moves inv relates pool session (report a after).2
          exact ⟨same ▸ step, wider, le, same ▸ kept, named held⟩
      | error error => exact moved

/-- A command that looks at the session leaves it as it is. -/
theorem inspect_moves {plan : Variables → Resolved α} {report : α → SessionM Report}
    (holds : pool.Holds session.vars) (kept : inv pool session.context)
    (reads : ∀ a (session : Session), (report a session).2 = session) :
    Moves inv relates pool session (inspect plan report session).2 := by
  rw [inspect, get_bind_apply]
  cases plan session.vars with
  | error name => exact .refl tracks holds kept
  | ok a =>
      have same := reads a session
      change Moves inv relates pool session (report a session).2
      rw [same]
      exact .refl tracks holds kept

omit tracks in
theorem reportIndexed_names (name : Option String) {indexed : Indexed}
    (member : pool.indexed indexed) (session : Session) :
    Names pool session (reportIndexed name indexed session).2 := by
  cases indexed with
  | load expr => exact assign_names name (show pool.entity (.expr expr) from member) session
  | slice slice => exact assign_names name (show pool.entity (.slice slice) from member) session

theorem extractMap_moves (holds : pool.Holds session.vars) (kept : inv pool session.context)
    (exprs : List Expr) : Moves inv relates pool session (extractMap exprs session).2 := by
  simp only [extractMap, bind, StateT.bind, get, getThe, MonadStateOf.get, StateT.get, pure]
  cases Extraction.access exprs session.refs with
  | ok map refs => exact .of_still tracks holds kept rfl ⟨rfl, rfl, rfl, rfl, rfl, rfl, rfl⟩
  | error error refs => exact .of_still tracks holds kept rfl ⟨rfl, rfl, rfl, rfl, rfl, rfl, rfl⟩

/-- What a command names was constructed in the session, and it keeps all that the steps of plans
and building keep. -/
theorem runCommand_moves (name : Option String) (command : Command)
    (holds : pool.Holds session.vars) (kept : inv pool session.context) :
    Moves inv relates pool session (runCommand name command session).2 := by
  have nothing : ∀ {pool : Pool} (session : Session), Names pool session session :=
    fun _ => ⟨rfl, fun holds => holds⟩
  cases command with
  | make recipe =>
      exact perform_moves tracks (fun pool expr => pool.expr expr) holds kept
        (fun resolved => tracks.plans (holds.recipe (Recipe.within_all _ _) resolved))
        fun {pool} expr after member =>
          assign_names name (show pool.entity (.expr expr) from member) after
  | placeholder tensor shape dtype =>
      refine perform_moves tracks (fun pool tensor => pool.tensor tensor) holds kept ?_
        fun {pool} tensor after member =>
          assign_names name (show pool.entity (.tensor tensor) from member) after
      intro action resolved
      cases resolved
      exact tracks.free (BuildM.placeholder_plans tensor shape dtype)
  | alloc tensor shape dtype =>
      refine perform_moves tracks (fun pool tensor => pool.tensor tensor) holds kept ?_
        fun {pool} tensor after member =>
          assign_names name (show pool.entity (.tensor tensor) from member) after
      intro action resolved
      cases resolved
      exact tracks.alloc tensor shape dtype
  | allocTensor tensor =>
      refine perform_moves tracks (fun _ _ => True) holds kept ?_ fun _ after _ => nothing after
      intro action resolved
      obtain ⟨target, found, same⟩ := Except.bind_eq_ok resolved
      cases same
      exact .of_ensures fun _ => tracks.allocTensor (holds.tensor found)
  | describeTensor tensor => exact inspect_moves tracks holds kept fun _ _ => rfl
  | sameTensor first second => exact inspect_moves tracks holds kept fun _ _ => rfl
  | index terms tensor =>
      refine perform_moves tracks (fun pool made => pool.indexed made) holds kept ?_
        fun made after member => reportIndexed_names name member after
      intro action resolved
      obtain ⟨args, known, resolved⟩ := Except.bind_eq_ok resolved
      obtain ⟨target, found, same⟩ := Except.bind_eq_ok resolved
      cases same
      exact tracks.free (BuildM.indexSlice_plans (BuildM.whole_slice (holds.tensor found))
        (holds.indexArgs known) fun _ => trivial)
  | indexSlice terms slice =>
      refine perform_moves tracks (fun pool made => pool.indexed made) holds kept ?_
        fun made after member => reportIndexed_names name member after
      intro action resolved
      obtain ⟨args, known, resolved⟩ := Except.bind_eq_ok resolved
      obtain ⟨target, found, same⟩ := Except.bind_eq_ok resolved
      cases same
      exact tracks.free
        (BuildM.indexSlice_plans (holds.slice found) (holds.indexArgs known) fun _ => trivial)
  | promote lhs rhs kind =>
      refine perform_moves tracks (fun _ _ => True) holds kept ?_ fun _ after _ => nothing after
      intro action resolved
      obtain ⟨left, leftFound, resolved⟩ := Except.bind_eq_ok resolved
      obtain ⟨right, rightFound, same⟩ := Except.bind_eq_ok resolved
      cases same
      cases kind with
      | none =>
          exact tracks.free ((BuildM.promote_plans (holds.expr leftFound)
            (holds.expr rightFound)).mono fun _ _ _ _ => trivial)
      | some kind =>
          exact tracks.free ((BuildM.promoteBits_plans kind (holds.expr leftFound)
            (holds.expr rightFound)).mono fun _ _ _ _ => trivial)
  | build expr =>
      refine perform_moves tracks (fun _ _ => True) holds kept ?_ fun _ after _ => nothing after
      intro action resolved
      obtain ⟨target, found, same⟩ := Except.bind_eq_ok resolved
      cases same
      exact tracks.builds (holds.expr found)
  | buildValue expr =>
      refine perform_moves tracks (fun _ _ => True) holds kept ?_ fun _ after _ => nothing after
      intro action resolved
      obtain ⟨target, found, same⟩ := Except.bind_eq_ok resolved
      cases same
      exact tracks.buildValue (holds.expr found)
  | buildAll exprs =>
      refine perform_moves tracks (fun _ _ => True) holds kept ?_ fun _ after _ => nothing after
      intro action resolved
      obtain ⟨targets, found, same⟩ := Except.bind_eq_ok resolved
      cases same
      exact tracks.buildAll (holds.exprs found)
  | savePoint ref =>
      rw [runCommand, get_bind_apply]
      cases session.resolvePoint ref <;>
        exact .of_still tracks holds kept rfl ⟨rfl, rfl, rfl, rfl, rfl, rfl, rfl⟩
  | restorePoint =>
      refine perform_moves tracks (fun _ _ => True) holds kept ?_ fun _ after _ => nothing after
      intro action resolved
      cases resolved
      exact tracks.restorePoint
  | currentPoint =>
      refine perform_moves tracks (fun _ _ => True) holds kept ?_ fun _ after _ => nothing after
      intro action resolved
      cases resolved
      exact tracks.currentPoint
  | clearPoints => exact .of_still tracks holds kept rfl ⟨rfl, rfl, rfl, rfl, rfl, rfl, rfl⟩
  | truncatePoints depth =>
      exact .of_still tracks holds kept rfl ⟨rfl, rfl, rfl, rfl, rfl, rfl, rfl⟩
  | describe expr => exact inspect_moves tracks holds kept fun _ _ => rfl
  | describeContext => exact .refl tracks holds kept
  | tree expr => exact inspect_moves tracks holds kept fun _ _ => rfl
  | extractMap exprs =>
      rw [runCommand, get_bind_apply]
      cases exprs.mapM session.vars.expr with
      | error name => exact .refl tracks holds kept
      | ok exprs => exact extractMap_moves tracks holds kept exprs
  | extract expr =>
      rw [runCommand, get_bind_apply]
      cases session.vars.expr expr with
      | error name => exact .refl tracks holds kept
      | ok expr => exact .of_still tracks holds kept rfl ⟨rfl, rfl, rfl, rfl, rfl, rfl, rfl⟩
  | clearExtraction => exact .of_still tracks holds kept rfl ⟨rfl, rfl, rfl, rfl, rfl, rfl, rfl⟩
  | query query =>
      rw [runCommand, get_bind_apply]
      cases query.ask (session.vars.opNames session.context) session.context.module with
      | error name => exact .refl tracks holds kept
      | ok asked => exact .of_still tracks holds kept rfl ⟨rfl, rfl, rfl, rfl, rfl, rfl, rfl⟩

end Commands

/-! ## The pool stays upheld -/

variable {α β : Type} {epoch : Epoch} {pool wider : Pool} {session middle after : Session}

/-- A session upholds a pool with all that its variables hold. -/
structure Within (epoch : Epoch) (pool : Pool) (session : Session) : Prop where
  upholds : session.context.Upholds epoch pool
  holds : pool.Holds session.vars

theorem Within.sound (within : session.Within epoch pool) : pool.Sound session.context.nextId :=
  within.upholds.sound

/-- A step of a session leaves it within a wider pool. -/
def Widens (before after : Session) : Prop :=
  ∀ epoch pool, before.Within epoch pool → ∃ wider, pool.Le wider ∧ after.Within epoch wider

theorem Widens.trans (first : Widens session middle) (second : Widens middle after) :
    Widens session after := by
  intro epoch pool within
  obtain ⟨wider, le, within⟩ := first epoch pool within
  obtain ⟨widest, further, within⟩ := second epoch wider within
  exact ⟨widest, le.trans further, within⟩

/-- The variables are the same, and every pool is still upheld. -/
theorem Widens.of_upholds (vars : after.vars = session.vars)
    (upheld : ∀ epoch pool, session.context.Upholds epoch pool →
      after.context.Upholds epoch pool) : Widens session after := by
  intro epoch pool within
  exact ⟨pool, .refl pool, upheld epoch pool within.upholds, vars ▸ within.holds⟩

theorem Widens.refl (session : Session) : Widens session session :=
  .of_upholds rfl fun _ _ upholds => upholds

/-- Insertion points and events do not matter. -/
theorem Widens.of_eq (vars : after.vars = session.vars)
    (module : after.context.module = session.context.module)
    (bindings : after.context.bindings = session.context.bindings)
    (storage : after.context.storage = session.context.storage)
    (nextId : after.context.nextId = session.context.nextId) : Widens session after := by
  refine .of_upholds vars fun epoch pool upholds => upholds.mono module (fun id binding found => ?_)
    storage (Nat.le_of_eq nextId.symm)
  rwa [Context.binding?, bindings] at found

theorem Within.assign (within : session.Within epoch pool) (name : Option String) {entity : Entity}
    (member : pool.entity entity) : (assign name entity session).2.Within epoch pool := by
  cases name with
  | none => exact within
  | some name => exact ⟨within.upholds, within.holds.insert member name⟩

/-- After a step that ran a build action with success, its result is in a wider pool. -/
theorem Within.attempt_ok {action : BuildM α} {good : Pool → α → Prop} {a : α}
    (within : session.Within epoch pool) (makes : BuildM.Makes pool action good)
    (run : attempt action session = (.ok a, after)) :
    ∃ wider, pool.Le wider ∧ after.Within epoch wider ∧ good wider a := by
  obtain ⟨wider, le, upheld, made⟩ :=
    Session.attempt_ok (makes epoch session.context within.upholds) run
  exact ⟨wider, le, ⟨upheld, attempt_vars run ▸ le.holds within.holds⟩, made⟩

theorem Within.attempt_error {action : BuildM α} {good : Pool → α → Prop} {error : BuildError}
    (within : session.Within epoch pool) (makes : BuildM.Makes pool action good)
    (run : attempt action session = (.error error, after)) :
    ∃ wider, pool.Le wider ∧ after.Within epoch wider := by
  obtain ⟨wider, le, upheld⟩ :=
    Session.attempt_error (makes epoch session.context within.upholds) run
  exact ⟨wider, le, ⟨upheld, attempt_vars run ▸ le.holds within.holds⟩⟩

/-- What a command names was constructed in the session. -/
theorem runCommand_widens (name : Option String) (command : Command) (session : Session) :
    Widens session (runCommand name command session).2 := by
  intro epoch pool within
  obtain ⟨-, wider, le, upheld, held⟩ :=
    runCommand_moves (BuildM.upholds_tracks epoch) name command within.holds within.upholds
  exact ⟨wider, le, upheld, held⟩

/-! ## Steps of statements -/

/-- A step that runs a build action over what the variables hold. -/
theorem attempt_widens {action : BuildM α} {good : Pool → α → Prop}
    (makes : ∀ {pool : Pool}, pool.Holds session.vars → BuildM.Makes pool action good) :
    Widens session (attempt action session).2 := by
  intro epoch pool within
  rcases ran : attempt action session with ⟨result, after⟩
  cases result with
  | ok a =>
      obtain ⟨wider, le, within, -⟩ := within.attempt_ok (makes within.holds) ran
      exact ⟨wider, le, within⟩
  | error error => exact within.attempt_error (makes within.holds) ran

theorem inside_widens (block : BlockId) (session : Session) :
    Widens session (session.inside block) := .of_eq rfl rfl rfl rfl rfl

theorem leaving_widens (mark : RegionMark) (session : Session) :
    Widens session (session.leaving mark) := .of_upholds rfl fun _ _ upholds => upholds.leave mark

theorem reportRegion_widens (name : Option String) (op : OpId) (outcome : BodyOutcome)
    (session : Session) : Widens session (reportRegion name op outcome session).2 := by
  rcases outcome with ⟨records, failure⟩
  cases failure with
  | some error => exact .refl session
  | none =>
      intro epoch pool within
      exact ⟨pool, .refl pool, within.assign name (show pool.entity (.op op) from trivial)⟩

/-- A loop is begun, and its body is entered. -/
theorem insideLoop_widens {lower upper : IndexTerm} {low high : Bound} {spec : BuildM.LoopSpec}
    {var : Expr} {header : BuildM.LoopHeader} {opened : Session}
    (lowFound : session.vars.bound lower = .ok low)
    (highFound : session.vars.bound upper = .ok high)
    (ran : attempt (BuildM.beginLoop low high spec) session = (.ok (var, header), opened))
    (counter : Option String) : Widens session (opened.insideLoop header var counter) := by
  intro epoch pool within
  obtain ⟨wider, le, upheld, member, typed, counts⟩ :=
    Session.attempt_ok (BuildM.beginLoop_makes within.upholds (within.holds.bound lowFound)
      (within.holds.bound highFound) spec) ran
  have entered : (opened.inside header.body).context.Upholds epoch wider :=
    upheld.mono rfl (fun _ _ found => found) rfl (Nat.le_refl _)
  have bound : Within epoch wider
      { opened with
        context := (opened.inside header.body).context.bind var.id (.value header.counter) } := by
    refine ⟨entered.bind var member fun value same => ?_, attempt_vars ran ▸ le.holds within.holds⟩
    cases same
    exact ⟨.index, typed, counts⟩
  exact ⟨wider, le, bound.assign counter (show wider.entity (.expr var) from member)⟩

/-- The condition is constructed, and a conditional is begun. -/
theorem beginConditional_makes {condition : Operand} {vars : Variables} {operand : BuildM Expr}
    (resolved : vars.operand condition = .ok operand) (holds : pool.Holds vars) :
    BuildM.Makes pool (do BuildM.beginConditional (← operand)) fun _ _ => True :=
  (holds.operand resolved).makes_of_free.bind fun _ _ _ member =>
    BuildM.Makes.of_types fun sound => BuildM.beginConditional_types sound member

end Session

end AffineKernel
