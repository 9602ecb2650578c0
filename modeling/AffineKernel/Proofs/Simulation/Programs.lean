import AffineKernel.Proofs.Script.Bindings
import AffineKernel.Proofs.Simulation.Functions
import AffineKernel.Proofs.Simulation.Statements

/-!
# Functions with an imperative body

The body of a function may be made of loops, conditionals and stores, in any
order and nesting (`Statement.imperative`). Which deeds it stands for is read
off while the script runs, since the variables of a script say which expressions
are meant (`Session.deedsOf`); what the deeds do is said without any reference
to the script (`Deed.perform`).

Each statement enacts its deeds (`Session.runStatement_accomplishes`), provided
that it has nodes of its own. A node that was built is bound until its region
closes, so between two statements the bound nodes are the variables of the loops
around, and nodes of earlier statements (`Session.Stage`). A call of a function
with such a body does its deeds on the buffers that it is given
(`Session.function_performs_deeds`).
-/

set_option autoImplicit false

namespace AffineKernel

open Context

/-! ## Imperative statements -/

/-- Whether a command builds a node. -/
def Command.isBuild : Command → Bool
  | .build _ => true
  | _ => false

mutual

/-- Whether a statement constructs, builds a node, or is a loop or conditional over such
statements; only failures of constructors may be caught. -/
def Statement.imperative : Statement → Bool
  | .command label asked =>
    (!asked.builds && !asked.steers) || (asked.isBuild && !label.caught)
  | .loop label _ _ _ _ body | .conditional label (.var _) body =>
    !label.caught && imperativeBody body
  | .conditional .. | .function .. | .withPoint .. | .scoped .. => false

/-- Whether all statements of a body are imperative. -/
def imperativeBody : List Statement → Bool
  | [] => true
  | statement :: rest => statement.imperative && imperativeBody rest

end

namespace Session

/-- The deed of a build: a store is written, and any other node is evaluated. -/
def buildDeed : Expr → Deed
  | .store id tensor value indices => .write id tensor value indices
  | expr => .evaluate expr

mutual

/-- The deeds of a statement that is run in a session. Only what is built is done: a store that was
constructed and not built does nothing. -/
def deedsOf : Statement → Session → List Deed
  | .command _ (.build name), session =>
    match session.vars.expr name with
    | .ok expr => [buildDeed expr]
    | .error _ => []
  | .loop _ counter lower upper spec body, session =>
    match session.vars.bound lower, session.vars.bound upper with
    | .ok low, .ok high =>
      match attempt (BuildM.beginLoop low high spec) session with
      | (.ok (var, header), opened) =>
        [.loop var.id low high spec.step
          (deedsOfBody body (opened.insideLoop header var counter))]
      | _ => []
    | _, _ => []
  | .conditional _ (.var name) body, session =>
    match session.vars.expr name with
    | .ok condition =>
      match attempt (BuildM.beginConditional condition) session with
      | (.ok (_, block), opened) => [.branch condition (deedsOfBody body (opened.inside block))]
      | _ => []
    | .error _ => []
  | _, _ => []

/-- The deeds of the statements of a body, in order. -/
def deedsOfBody : List Statement → Session → List Deed
  | [], _ => []
  | statement :: rest, session =>
    deedsOf statement session ++ deedsOfBody rest (runStatement statement session).2

end

end Session

/-! ## Between two statements -/

/-- A deed owns the nodes below its trees. -/
def Deed.Owns (pool : Pool) (deed : Deed) (expr : Expr) : Prop :=
  pool.expr expr ∧ ∃ tree ∈ deed.trees, tree.Below expr

/-- A node of a deed that is no loop variable is among its identities. -/
theorem Deed.Owns.id_mem {pool : Pool} {deed : Deed} {expr : Expr} (owns : deed.Owns pool expr)
    (plain : expr.loopName? = none) : expr.id ∈ deed.ids := by
  obtain ⟨-, tree, listed, below⟩ := owns
  exact ids_subset_idsOf listed (below.id_mem plain)

/-- Bindings that are only added stay. -/
theorem Context.Extends.kept {before after : Context} (turns : Extends before after)
    (inside : 0 < before.regions) {id : NodeId} {binding : Binding}
    (found : before.binding? id = some binding) : after.binding? id = some binding := by
  obtain ⟨bound, -, known⟩ := turns.logged
  have known := known inside id
  split at known
  · rw [found] at known
    simp at known
  · rcases known with same | gone
    · exact same.trans found
    · exact gone.1.elim

namespace Session

variable {tensors : List Tensor} {pool wider : Pool} {vars : List Expr} {seen ids : List NodeId}
  {session after : Session}

/-- A session between two statements in the body of a function: what is bound are the variables of
the loops around, and nodes that were seen in earlier statements. -/
structure Stage (tensors : List Tensor) (pool : Pool) (vars : List Expr) (seen : List NodeId)
    (session : Session) : Prop where
  holds : pool.Holds session.vars
  calm : session.context.Calm pool
  deferred : session.context.mode = .deferred
  inside : 0 < session.context.regions
  ends : session.context.AtEnds
  rooted : session.context.Rooted
  args : ∀ tensor ∈ tensors, pool.tensor tensor
  named : ∀ var ∈ vars, pool.expr var ∧ var.loopName?.isSome = true
  bound : ∀ {id : NodeId} {binding : Binding}, session.context.binding? id = some binding →
    (∃ var ∈ vars, var.id = id) ∨
      ∃ node, pool.expr node ∧ node.loopName? = none ∧ node.id = id ∧ id ∈ seen

namespace Stage

/-- After a step that binds nodes of `ids` only. -/
theorem step (stage : Stage tensors pool vars seen session) (le : pool.Le wider)
    (holds : wider.Holds after.vars) (calm : after.context.Calm wider)
    (emits : Emits [] session.context after.context)
    (fresh : ∀ {id : NodeId} {binding : Binding}, after.context.binding? id = some binding →
      session.context.binding? id = some binding ∨
        ∃ node, wider.expr node ∧ node.loopName? = none ∧ node.id = id ∧ id ∈ ids) :
    Stage tensors wider vars (seen ++ ids) after where
  holds := holds
  calm := calm
  deferred := emits.mode.trans stage.deferred
  inside := emits.regions ▸ stage.inside
  ends := emits.atEnds stage.ends
  rooted := emits.rooted stage.rooted
  args tensor listed := le.tensor (stage.args tensor listed)
  named var listed := ⟨le.expr (stage.named var listed).1, (stage.named var listed).2⟩
  bound := by
    intro id binding found
    rcases fresh found with old | ⟨node, member, plain, same, new⟩
    · refine (stage.bound old).imp_right ?_
      rintro ⟨node, member, plain, same, known⟩
      exact ⟨node, le.expr member, plain, same, List.mem_append_left _ known⟩
    · exact .inr ⟨node, member, plain, same, List.mem_append_right _ new⟩

/-- The region of a block is entered. -/
theorem enter (stage : Stage tensors pool vars seen session) {block : BlockId}
    (there : block.index < session.context.module.blocks.size) :
    Stage tensors pool vars seen (session.inside block) where
  holds := stage.holds
  calm := (inside_calm stage.calm block).2
  deferred := stage.deferred
  inside := Nat.succ_pos _
  ends := by
    intro point listed
    rcases List.mem_cons.mp listed with rfl | old
    · rfl
    · exact stage.ends point old
  rooted := by
    rintro _ ⟨point, listed, rfl⟩
    rcases List.mem_cons.mp listed with rfl | old
    · exact there
    · exact stage.rooted _ ⟨point, old, rfl⟩
  args := stage.args
  named := stage.named
  bound := stage.bound

/-- The region of a loop is entered, whose variable is new. -/
theorem enterLoop (stage : Stage tensors pool vars seen session) {header : BuildM.LoopHeader}
    {var : Expr} (counter : Option String)
    (there : header.body.index < session.context.module.blocks.size) (member : pool.expr var)
    (free : session.context.binding? var.id = none) (plain : var.isAxis = false)
    (named : var.loopName?.isSome = true) :
    Stage tensors pool (var :: vars) seen (session.insideLoop header var counter) := by
  have entered := stage.enter there
  obtain ⟨-, calm, holds⟩ := insideLoop_calm header counter stage.calm stage.holds free member plain
  have context := insideLoop_context header var counter session
  refine
    { holds
      calm
      deferred := by rw [context]; exact entered.deferred
      inside := by rw [context]; exact entered.inside
      ends := by rw [context]; exact entered.ends
      rooted := by rw [context]; exact entered.rooted
      args := stage.args
      named := fun known listed => ?_
      bound := fun {id binding} found => ?_ }
  · rcases List.mem_cons.mp listed with rfl | old
    · exact ⟨member, named⟩
    · exact stage.named known old
  · rw [context, Context.binding?_bind] at found
    split at found
    · rename_i same
      exact .inl ⟨var, List.mem_cons_self, same⟩
    · refine (entered.bound found).imp_left ?_
      rintro ⟨known, old, same⟩
      exact ⟨known, List.mem_cons_of_mem _ old, same⟩

/-- Nodes that were not seen before serve a statement. -/
theorem serves (stage : Stage tensors pool vars seen session) {deed : Deed}
    (new : ∀ id ∈ seen, id ∉ deed.ids) :
    Serves tensors vars (deed.Owns pool) session.context where
  graph :=
    { operands := fun owns operand listed => by
        obtain ⟨member, tree, known, below⟩ := owns
        exact ⟨stage.calm.sound.operands member operand listed, tree, known, below.operand listed⟩
      unique := fun first second same => stage.calm.sound.unique first.1 second.1 same
      formed := fun owns => stage.calm.sound.formed owns.1 }
  bound := by
    intro expr binding owns found
    rcases stage.bound found with ⟨var, listed, same⟩ | ⟨node, member, plain, same, known⟩
    · rwa [← stage.calm.sound.unique (stage.named var listed).1 owns.1 same]
    · obtain rfl := stage.calm.sound.unique member owns.1 same
      exact absurd (owns.id_mem plain) (new _ known)
  named var listed := (stage.named var listed).2
  args := by
    intro expr tensor owns used arg listed same
    exact stage.calm.sound.tensorUnique (stage.args arg listed)
      (stage.calm.sound.tensors owns.1 tensor used) same

end Stage

/-- The nodes that a statement binds are its own. -/
theorem fresh_of_computes {β : Type} {deed : Deed} {context later : Context}
    {meaning : Setting → Except Fault β} {good : β → Frame → Prop}
    (computes : Computes (deed.Owns pool) context later meaning good) {id : NodeId}
    {binding : Binding} (found : later.binding? id = some binding) :
    context.binding? id = some binding ∨
      ∃ node, pool.expr node ∧ node.loopName? = none ∧ node.id = id ∧ id ∈ deed.ids := by
  refine (computes.fresh found).imp_right ?_
  rintro ⟨node, owns, plain, same⟩
  exact ⟨node, owns.1, plain, same, same ▸ owns.id_mem plain⟩

/-- What a statement has to show: it enacts its deeds, and the nodes that it leaves bound are
theirs. -/
def Accomplishes (tensors : List Tensor) (vars : List Expr) (seen : List NodeId) (pool : Pool)
    (depth : Nat) (session after : Session) (deeds : List Deed) : Prop :=
  Enacts tensors vars depth session.context after.context (Deed.performAll deeds) ∧
    ∃ wider, pool.Le wider ∧
      Stage tensors wider vars (seen ++ (Deed.allOf deeds).flatMap Deed.ids) after

/-- Nothing was built. -/
theorem Stage.rests (stage : Stage tensors pool vars seen session) (depth : Nat)
    (rests : session.context.Rests after.context)
    (settles : Settles pool session after) :
    Accomplishes tensors vars seen pool depth session after [] := by
  obtain ⟨-, wider, le, calm, holds⟩ := settles
  refine ⟨.of_rests rests, wider, le, stage.step le holds calm rests.emits fun found => .inl ?_⟩
  rwa [Context.binding?, rests.bindings] at found

/-- What is built enacts its deed. -/
theorem build_accomplishes {depth : Nat} {expr : Expr} {binding : Binding} {last : Session}
    (stage : Stage tensors pool vars seen session)
    (ran : attempt (BuildM.build expr) session = (.ok binding, last)) (member : pool.expr expr)
    (fresh : Deed.Fresh seen (buildDeed expr).all) (settles : Settles pool session last) :
    Accomplishes tensors vars seen pool depth session last [buildDeed expr] := by
  have single : (buildDeed expr).all = [buildDeed expr] := by cases expr <;> rfl
  have trees : (buildDeed expr).trees = [expr] := by cases expr <;> rfl
  rw [single] at fresh
  have plain := fresh.plain _ List.mem_cons_self
  have serves := stage.serves (fresh.new _ List.mem_cons_self)
  have owns : (buildDeed expr).Owns pool expr := ⟨member, expr, by simp [trees], .root⟩
  obtain ⟨enacts, made⟩ : Enacts tensors vars depth session.context last.context
      (buildDeed expr).perform ∧ ∀ {other : NodeId} {binding : Binding},
        last.context.binding? other = some binding →
        session.context.binding? other = some binding ∨
          ∃ node, (buildDeed expr).Owns pool node ∧ node.loopName? = none ∧ node.id = other := by
    cases expr with
    | store id tensor value indices =>
        exact attempt_ok (BuildM.build_store_enacts serves owns plain stage.ends) ran
    | _ =>
        simp only [buildDeed, Deed.isPlain, Bool.and_eq_true, Option.isNone_iff_eq_none] at plain
        exact attempt_ok (BuildM.build_enacts serves owns plain.1 plain.2 stage.ends) ran
  obtain ⟨-, wider, le, calm, holds⟩ := settles
  refine ⟨by simpa using enacts, wider, le, ?_⟩
  rw [Deed.allOf_singleton, single, List.flatMap_singleton]
  refine stage.step le holds calm enacts.emits fun found => (made found).imp_right ?_
  rintro ⟨node, known, plain, same⟩
  exact ⟨node, le.expr known.1, plain, same, same ▸ known.id_mem plain⟩

/-! ## Loops and conditionals -/

section Regions

variable {draft : OpDraft} {args : List ValueType} {id : OpId} {block : BlockId}
  {middle inside : Context} {opened done last : Session}
  (opens : Unfolds draft args id block middle opened.context)
  (entered : Emits [] (opened.inside block).context inside)
  (insideModule : inside.module = opened.context.module) (fills : Emits [] inside done.context)
  (ended : attempt BuildM.endBody done = (.ok (), last))
include opens entered insideModule fills ended

/-- An operation with a block comes about by opening its region, filling and closing it. -/
theorem encloses_of_region :
    Encloses draft args id block middle opened.context inside done.context last.context
        (last.leaving opened.context.mark).context ∧
      Emits [] middle (last.leaving opened.context.mark).context ∧
      (last.leaving opened.context.mark).context.storage = done.context.storage := by
  obtain ⟨yield, yields⟩ := attempt_ok (BuildM.emitYield_creates done.context) ended
  have filled := (entered.trans fills).trans yields.emits
  have stack : last.context.stack = [.atEnd block] ++ opened.context.stack := filled.stack
  refine ⟨?_, .leaveBlock opens.creates.emits opens.size_le filled, yields.storage⟩
  exact
    { opens
      insideModule
      insideStack := entered.stack.trans (congrArg (List.cons _) opens.creates.emits.stack)
      fills
      yields := ⟨yield, yields⟩
      afterModule := rfl
      afterStack := (Emits.stack_leave stack).trans opens.creates.emits.stack }

end Regions

variable {depth : Nat} {deeds : List Deed} {opened done last : Session}

section Openings

variable {deed : Deed} {β : Type} {meaning : Setting → Except Fault β} {good : β → Frame → Prop}
  {middle : Context} {draft : OpDraft} {id : OpId}
  (computes : Computes (deed.Owns pool) session.context middle meaning good)
  (creates : Creates draft id middle opened.context)
include computes creates

/-- Of the nodes of a deed, those are bound in the region of its operation that it has computed. -/
theorem bound_of_opening {node : NodeId} {binding : Binding}
    (found : opened.context.binding? node = some binding) :
    session.context.binding? node = some binding ∨
      ∃ expr, pool.expr expr ∧ expr.loopName? = none ∧ expr.id = node ∧ node ∈ deed.ids := by
  rw [Context.binding?, creates.bindings] at found
  exact fresh_of_computes computes found

/-- The operation of a deed is created, and its region is about to be entered. -/
theorem Stage.opening (stage : Stage tensors pool vars seen session) (le : pool.Le wider)
    (held : wider.Holds opened.vars) (calm : opened.context.Calm wider) :
    Stage tensors wider vars (seen ++ deed.ids) opened := by
  refine stage.step le held calm (computes.emits.trans creates.emits) fun found => ?_
  refine (bound_of_opening computes creates found).imp_right ?_
  rintro ⟨expr, member, rest⟩
  exact ⟨expr, le.expr member, rest⟩

/-- The region of a deed is closed, and what is bound is what was bound when it was opened. -/
theorem Stage.closing (stage : Stage tensors pool vars seen session) {ids : List NodeId}
    (settles : Settles pool session after) (emits : Emits [] session.context after.context)
    (restored : ∀ id, after.context.binding? id = opened.context.binding? id)
    (own : deed.ids ⊆ ids) : ∃ wider, pool.Le wider ∧ Stage tensors wider vars (seen ++ ids) after := by
  obtain ⟨-, wider, le, calm, holds⟩ := settles
  refine ⟨wider, le, stage.step le holds calm emits fun found => ?_⟩
  rw [restored] at found
  refine (bound_of_opening computes creates found).imp_right ?_
  rintro ⟨expr, member, plain, same, listed⟩
  exact ⟨expr, le.expr member, plain, same, own listed⟩

end Openings

/-- A body that does its deeds from whatever stage it starts. -/
def Fulfils (tensors : List Tensor) (depth : Nat) (session after : Session) (deeds : List Deed) :
    Prop :=
  ∀ (pool : Pool) (vars : List Expr) (seen : List NodeId), Stage tensors pool vars seen session →
    Deed.Fresh seen (Deed.allOf deeds) →
    Accomplishes tensors vars seen pool depth session after deeds

/-- A loop whose body does its deeds does the deed of the loop. -/
theorem loop_accomplishes {lower upper : Bound} {spec : BuildM.LoopSpec} {var : Expr}
    {header : BuildM.LoopHeader} {counter : Option String}
    (stage : Stage tensors pool vars seen session)
    (low : ∀ expr ∈ lower.exprs, pool.expr expr) (high : ∀ expr ∈ upper.exprs, pool.expr expr)
    (begun : attempt (BuildM.beginLoop lower upper spec) session = (.ok (var, header), opened))
    (body : Fulfils tensors depth (opened.insideLoop header var counter) done deeds)
    (ended : attempt BuildM.endBody done = (.ok (), last))
    (after : Session) (same : after.context = (last.leaving opened.context.mark).context)
    (settles : Settles pool session after)
    (restored : ∀ id, after.context.binding? id = opened.context.binding? id)
    (fresh : Deed.Fresh seen (Deed.loop var.id lower upper spec.step deeds).all) :
    Accomplishes tensors vars seen pool (depth + 1) session after
      [.loop var.id lower upper spec.step deeds] := by
  have listed : Deed.loop var.id lower upper spec.step deeds ∈
      (Deed.loop var.id lower upper spec.step deeds).all := by simp [Deed.all]
  obtain ⟨flat, small⟩ := Bool.and_eq_true_iff.mp (fresh.plain _ listed)
  have small : spec.step < 2 ^ 32 := of_decide_eq_true small
  have serves := stage.serves (fresh.new _ listed)
  have members : ∀ expr ∈ lower.exprs ++ upper.exprs,
      (Deed.loop var.id lower upper spec.step deeds).Owns pool expr := by
    intro expr inside
    refine ⟨?_, expr, inside, .root⟩
    rcases List.mem_append.mp inside with first | second
    · exact low expr first
    · exact high expr second
  obtain ⟨isVar, lowBound, highBound, middle, computes, opens⟩ :=
    attempt_ok (BuildM.beginLoop_computes serves.graph spec members flat stage.ends stage.rooted)
      begun
  obtain ⟨-, free, plain, wider, le, calm, member⟩ :=
    attempt_ok (BuildM.beginLoop_calm stage.calm low high spec) begun
  have openedStage := stage.opening computes opens.creates le
    (attempt_vars begun ▸ le.holds stage.holds) calm
  have insideStage := openedStage.enterLoop counter (Module.index_lt_of_block? opens.listed) member
    free plain (by rw [show var = _ from isVar]; rfl)
  obtain ⟨inner, -⟩ := body _ _ _ insideStage fresh.body
  have insideIs := insideLoop_context header var counter opened
  have entered : Emits [] (opened.inside header.body).context
      (opened.insideLoop header var counter).context := by
    rw [insideIs]
    exact .bind _ _ _
  obtain ⟨encloses, emits, storage⟩ := encloses_of_region opens entered (by rw [insideIs]; rfl)
    inner.emits ended
  rw [← same] at encloses emits storage
  have new : ∀ known ∈ vars, known.id ≠ var.id := by
    intro known listed equal
    have below := stage.calm.sound.below (stage.named known listed).1
    rw [equal, show var = _ from isVar] at below
    exact Nat.lt_irrefl _ below
  have enacts : Enacts tensors vars (depth + 1) session.context after.context
      (Deed.loop var.id lower upper spec.step deeds).perform :=
    .loop serves stage.ends emits (by rw [insideIs]; rfl) storage
      (fun var listed binding found => Extends.kept settles.1 stage.inside found) computes
      (computes.emits.rooted stage.rooted) encloses (by rw [insideIs]; rfl) new
      (Nat.lt_trans small (by decide)) inner
  refine ⟨by simpa using enacts, stage.closing computes opens.creates settles enacts.emits restored
    fun id own => List.mem_flatMap.mpr ⟨_, by simp [Deed.all], own⟩⟩

/-- A conditional whose body does its deeds does the deed of the conditional. -/
theorem branch_accomplishes {condition : Expr} {op : OpId} {block : BlockId}
    (stage : Stage tensors pool vars seen session) (member : pool.expr condition)
    (begun : attempt (BuildM.beginConditional condition) session = (.ok (op, block), opened))
    (body : Fulfils tensors depth (opened.inside block) done deeds)
    (ended : attempt BuildM.endBody done = (.ok (), last))
    (after : Session) (same : after.context = (last.leaving opened.context.mark).context)
    (settles : Settles pool session after)
    (restored : ∀ id, after.context.binding? id = opened.context.binding? id)
    (fresh : Deed.Fresh seen (Deed.branch condition deeds).all) :
    Accomplishes tensors vars seen pool (depth + 1) session after [.branch condition deeds] := by
  have listed : Deed.branch condition deeds ∈ (Deed.branch condition deeds).all := by
    simp [Deed.all]
  obtain ⟨flat, truth⟩ := Bool.and_eq_true_iff.mp (fresh.plain _ listed)
  have truth : condition.dtype? = some .bool := of_decide_eq_true truth
  have serves := stage.serves (fresh.new _ listed)
  have owns : (Deed.branch condition deeds).Owns pool condition :=
    ⟨member, condition, by simp [Deed.trees], .root⟩
  obtain ⟨index, middle, computes, opens⟩ := attempt_ok
    (BuildM.beginConditional_computes serves.graph owns flat truth stage.ends stage.rooted) begun
  obtain ⟨-, wider, le, calm, held, -⟩ := attempt_follows stage.holds stage.calm
    (BuildM.beginConditional_calms member) begun
  have openedStage := stage.opening computes opens.creates le held calm
  have insideStage := openedStage.enter (Module.index_lt_of_block? opens.listed)
  obtain ⟨inner, -⟩ := body _ _ _ insideStage fresh.body
  obtain ⟨encloses, emits, storage⟩ := encloses_of_region opens (.refl _) rfl inner.emits ended
  rw [← same] at encloses emits storage
  have enacts : Enacts tensors vars (depth + 1) session.context after.context
      (Deed.branch condition deeds).perform :=
    .branch serves stage.ends emits
      (show (opened.inside block).context.storage = opened.context.storage from rfl) storage
      (fun var listed binding found => Extends.kept settles.1 stage.inside found) computes
      (computes.emits.rooted stage.rooted) encloses rfl inner
  refine ⟨by simpa using enacts, stage.closing computes opens.creates settles enacts.emits restored
    fun id own => List.mem_flatMap.mpr ⟨_, by simp [Deed.all], own⟩⟩

/-! ## Statements -/

/-- Deeds after deeds. -/
theorem Accomplishes.trans {middle : Session} {more : List Deed}
    (stage : Stage tensors pool vars seen session)
    (start : Accomplishes tensors vars seen pool depth session middle deeds)
    (fresh : Deed.Fresh seen (Deed.allOf (deeds ++ more)))
    (end_ : Fulfils tensors depth middle after more) :
    Accomplishes tensors vars seen pool depth session after (deeds ++ more) := by
  obtain ⟨first, wider, le, middleStage⟩ := start
  rw [Deed.allOf_append] at fresh
  obtain ⟨second, widest, further, afterStage⟩ := end_ _ _ _ middleStage fresh.right
  refine ⟨?_, widest, le.trans further, ?_⟩
  · have both := first.seq second stage.ends
    have meaning : Deed.performAll (deeds ++ more) = fun env memory =>
        Deed.performAll deeds env memory >>= Deed.performAll more env := by
      funext env memory
      exact Deed.performAll_append deeds more env memory
    rwa [meaning]
  · rwa [Deed.allOf_append, List.flatMap_append, ← List.append_assoc]

/-- A command does the deed of its build, if it is one. -/
theorem runCommand_accomplishes {label : Label} {asked : Command}
    (imperative : (Statement.command label asked).imperative = true)
    (ended : (runCommand label.name asked session).1.2 = none ∨ label.caught = true) :
    Fulfils tensors depth session (runCommand label.name asked session).2
      (deedsOf (.command label asked) session) := by
  intro pool vars seen stage fresh
  have settles := runCommand_moves BuildM.calm_tracks label.name asked stage.holds stage.calm
  cases built : asked.isBuild with
  | false =>
      have nothing : deedsOf (.command label asked) session = [] := by
        cases asked <;> first | rfl | cases built
      have constructs : (Statement.command label asked).constructs = true := by
        simpa [Statement.imperative, Statement.constructs, built] using imperative
      rw [nothing]
      exact stage.rests depth (runStatement_defers constructs session stage.deferred) settles
  | true =>
      obtain ⟨name, rfl⟩ : ∃ name, asked = .build name := by
        cases asked <;> first | exact ⟨_, rfl⟩ | cases built
      have uncaught : label.caught = false := by
        simpa [Statement.imperative, Command.builds, Command.isBuild] using imperative
      have clean := ended.resolve_right (by simp [uncaught])
      cases found : session.vars.expr name with
      | error missing =>
          have nothing : deedsOf (.command label (.build name)) session = [] := by
            simp only [deedsOf, found]
          rw [nothing]
          rw [runCommand_build_error found] at settles ⊢
          exact stage.rests depth (.refl _) settles
      | ok expr =>
          have deed : deedsOf (.command label (.build name)) session = [buildDeed expr] := by
            simp only [deedsOf, found]
          obtain ⟨binding, last, ran, same⟩ := runCommand_build_ok found clean
          rw [deed, Deed.allOf_singleton] at fresh
          rw [same] at settles
          rw [deed, same]
          exact build_accomplishes stage ran (stage.holds.expr found) fresh settles

/-- A body that does its deeds wherever it runs without a failure. -/
def Diligent (tensors : List Tensor) (body : List Statement) : Prop :=
  ∀ {session : Session} {depth : Nat}, (runBody body session).1.2 = none →
    Deed.depthAll (deedsOfBody body session) ≤ depth →
    Fulfils tensors depth session (runBody body session).2 (deedsOfBody body session)

section Nesting

variable {label : Label} {body : List Statement} (diligent : Diligent tensors body)
include diligent

/-- A loop does its deed, if its body does. -/
theorem loop_fulfils {counter : Option String} {lower upper : IndexTerm} {spec : BuildM.LoopSpec}
    (clean : (runLoop label counter lower upper spec (runBody body) session).1.2 = none)
    (deep : Deed.depthAll (deedsOf (.loop label counter lower upper spec body) session) ≤ depth) :
    Fulfils tensors depth session
      (runLoop label counter lower upper spec (runBody body) session).2
      (deedsOf (.loop label counter lower upper spec body) session) := by
  intro pool vars seen stage fresh
  obtain ⟨settles, restores⟩ := runLoop_settles (runBody_settles body) stage.holds stage.calm
    label counter lower upper spec
  cases resolved : (do return (← session.vars.bound lower, ← session.vars.bound upper) :
    Resolved (Bound × Bound)) with
  | error missing =>
      have nothing : deedsOf (.loop label counter lower upper spec body) session = [] := by
        rw [deedsOf]
        split
        · rename_i low high lowFound highFound
          rw [lowFound, highFound] at resolved
          cases resolved
        · rfl
      have same : (runLoop label counter lower upper spec (runBody body) session).2 = session := by
        rw [runLoop, get_bind_apply, resolved]
        rfl
      rw [nothing]
      rw [same] at settles ⊢
      exact stage.rests depth (.refl _) settles
  | ok bounds =>
      obtain ⟨low, high⟩ := bounds
      obtain ⟨lowFound, highFound⟩ := Except.pair_eq_ok resolved
      obtain ⟨var, header, opened, records, done, last, begun, ran, left, same⟩ :=
        runLoop_ok lowFound highFound clean
      have deed : deedsOf (.loop label counter lower upper spec body) session =
          [.loop var.id low high spec.step
            (deedsOfBody body (opened.insideLoop header var counter))] := by
        simp only [deedsOf, lowFound, highFound, begun]
      rw [deed, Deed.depthAll_singleton, Deed.depth] at deep
      rw [deed, Deed.allOf_singleton] at fresh
      obtain ⟨less, rfl⟩ : ∃ less, depth = less + 1 := ⟨depth - 1, by omega⟩
      have inner := diligent (by rw [ran]) (Nat.le_of_succ_le_succ deep)
      rw [ran] at inner
      rw [deed]
      refine loop_accomplishes stage (stage.holds.bound lowFound) (stage.holds.bound highFound)
        begun inner left _ ?_ settles ?_ fresh
      · rw [same, assign_context]
      · exact restores low high var header opened lowFound highFound begun

/-- A conditional does its deed, if its body does. -/
theorem conditional_fulfils {name : String}
    (clean : (runConditional label (.var name) (runBody body) session).1.2 = none)
    (deep : Deed.depthAll (deedsOf (.conditional label (.var name) body) session) ≤ depth) :
    Fulfils tensors depth session (runConditional label (.var name) (runBody body) session).2
      (deedsOf (.conditional label (.var name) body) session) := by
  intro pool vars seen stage fresh
  obtain ⟨settles, restores⟩ := runConditional_settles (runBody_settles body) stage.holds stage.calm
    label (.var name)
  cases found : session.vars.expr name with
  | error missing =>
      have nothing : deedsOf (.conditional label (.var name) body) session = [] := by
        simp only [deedsOf, found]
      have resolved : session.vars.operand (.var name) = .error missing := by
        rw [Variables.operand, found]
        rfl
      have same : (runConditional label (.var name) (runBody body) session).2 = session := by
        rw [runConditional, get_bind_apply, resolved]
        rfl
      rw [nothing]
      rw [same] at settles ⊢
      exact stage.rests depth (.refl _) settles
  | ok condition =>
      obtain ⟨op, block, opened, records, done, last, begun, ran, left, same⟩ :=
        runConditional_ok found clean
      have deed : deedsOf (.conditional label (.var name) body) session =
          [.branch condition (deedsOfBody body (opened.inside block))] := by
        simp only [deedsOf, found, begun]
      have resolved : session.vars.operand (.var name) = .ok (pure condition) := by
        rw [Variables.operand, found]
        rfl
      rw [deed, Deed.depthAll_singleton, Deed.depth] at deep
      rw [deed, Deed.allOf_singleton] at fresh
      obtain ⟨less, rfl⟩ : ∃ less, depth = less + 1 := ⟨depth - 1, by omega⟩
      have inner := diligent (by rw [ran]) (Nat.le_of_succ_le_succ deep)
      rw [ran] at inner
      rw [deed]
      refine branch_accomplishes stage (stage.holds.expr found) begun inner left _ ?_ settles ?_ fresh
      · rw [same, assign_context]
      · exact restores (pure condition) op block opened resolved (by rw [pure_bind, begun])

end Nesting

mutual

/-- A statement does its deeds. -/
theorem runStatement_accomplishes : ∀ (statement : Statement) {session : Session} {depth : Nat},
    statement.imperative = true →
    ((runStatement statement session).1.failure = none ∨ statement.label.caught = true) →
    Deed.depthAll (deedsOf statement session) ≤ depth →
    Fulfils tensors depth session (runStatement statement session).2 (deedsOf statement session)
  | .command label asked, session, depth, imperative, ended, _ =>
      runCommand_accomplishes imperative ended
  | .loop label counter lower upper spec body, session, depth, imperative, ended, deep => by
      obtain ⟨uncaught, bodies⟩ : label.caught = false ∧ imperativeBody body = true := by
        simpa [Statement.imperative] using imperative
      have clean := ended.resolve_right (by simp [Statement.label, uncaught])
      exact loop_fulfils (fun ran deep => runBody_accomplishes body bodies ran deep) clean deep
  | .conditional label (.var name) body, session, depth, imperative, ended, deep => by
      obtain ⟨uncaught, bodies⟩ : label.caught = false ∧ imperativeBody body = true := by
        simpa [Statement.imperative] using imperative
      have clean := ended.resolve_right (by simp [Statement.label, uncaught])
      exact conditional_fulfils (fun ran deep => runBody_accomplishes body bodies ran deep) clean
        deep
  | .conditional _ (.int _) _, _, _, imperative, _, _
  | .conditional _ (.float _) _, _, _, imperative, _, _
  | .conditional _ (.single _) _, _, _, imperative, _, _
  | .function .., _, _, imperative, _, _ | .withPoint .., _, _, imperative, _, _
  | .scoped .., _, _, imperative, _, _ => by cases imperative

/-- A body does the deeds of its statements. -/
theorem runBody_accomplishes : ∀ (statements : List Statement) {session : Session} {depth : Nat},
    imperativeBody statements = true → (runBody statements session).1.2 = none →
    Deed.depthAll (deedsOfBody statements session) ≤ depth →
    Fulfils tensors depth session (runBody statements session).2 (deedsOfBody statements session)
  | [], session, depth, _, _, _ => by
      intro pool vars seen stage _
      exact stage.rests depth (.refl _) (.refl BuildM.calm_tracks stage.holds stage.calm)
  | statement :: rest, session, depth, imperative, ended, deep => by
      intro pool vars seen stage fresh
      obtain ⟨first, others⟩ : statement.imperative = true ∧ imperativeBody rest = true := by
        simpa [imperativeBody] using imperative
      obtain ⟨passed, clean, same⟩ := runBody_cons_ok ended
      rw [deedsOfBody, Deed.depthAll_append] at deep
      rw [deedsOfBody] at fresh
      have starts := (Deed.allOf_append _ _ ▸ fresh).left
      rw [deedsOfBody, same]
      exact Accomplishes.trans stage
        (runStatement_accomplishes statement first passed (by omega) pool vars seen stage starts)
        fresh (runBody_accomplishes rest others clean (by omega))

end

end Session

/-! ## Functions -/

/-- The contents of the tensors of a function, in order. -/
def Memory.ofTensors (memory : Memory) (tensors : List Tensor) : List Buffer :=
  tensors.filterMap fun tensor => memory tensor.id

/-- The end of a function without a result. -/
theorem BuildM.endFunction_creates (context : Context) :
    Ensures (endFunction none) context
      (fun _ after => ∃ id, Creates { kind := .ret } id context after) (fun _ => True) := by
  simp only [endFunction, ensures_bind, ensures_pure]
  exact (create_creates _ context).mono (fun id after creates => ⟨id, creates⟩) fun _ _ => trivial

section Calls

variable {name : String} {tensors : List Tensor} {context : Context} {buffers : List Buffer}
  {memory : Memory} {heap : Array Buffer} {base : Nat}

/-- The buffers of a call lie on the heap in the order of the tensors. -/
theorem Setting.place_ofCall (distinct : (tensors.map Tensor.id).Nodup)
    (count : buffers.length = tensors.length) {id : NodeId} {handle : Nat} :
    (ofCall tensors buffers base).place id = some handle ↔
      ∃ position, (tensors.map Tensor.id)[position]? = some id ∧ handle = base + position := by
  constructor
  · intro placed
    obtain ⟨position, key, given⟩ := Table.exists_of_find?_zip placed
    rw [List.getElem?_map, Option.map_eq_some_iff] at given
    obtain ⟨index, ranged, rfl⟩ := given
    obtain ⟨-, rfl⟩ := List.getElem?_eq_some_iff.mp ranged
    exact ⟨position, key, by simp⟩
  · rintro ⟨position, key, rfl⟩
    have small : position < buffers.length := by
      rw [count]
      simpa using (List.getElem?_eq_some_iff.mp key).1
    exact Table.find?_zip distinct key (by simp [small])

/-- The buffers of a call are the contents of its tensors at the start. -/
theorem Mirrors.ofCall (distinct : (tensors.map Tensor.id).Nodup)
    (accepted : Tensor.AcceptAll tensors buffers) (heap : Array Buffer) :
    Mirrors tensors (Setting.ofCall tensors buffers heap.size).place (.ofArgs tensors buffers)
      (heap ++ buffers.toArray) where
  held := by
    intro id handle placed
    obtain ⟨position, key, rfl⟩ := (Setting.place_ofCall distinct accepted.count).mp placed
    have small : position < buffers.length := by
      rw [accepted.count]
      simpa using (List.getElem?_eq_some_iff.mp key).1
    exact ⟨buffers[position], by simp [small],
      Table.find?_zip distinct key (List.getElem?_eq_getElem small)⟩
  apart := by
    intro id other handle placed again
    obtain ⟨position, key, rfl⟩ := (Setting.place_ofCall distinct accepted.count).mp placed
    obtain ⟨second, otherKey, same⟩ := (Setting.place_ofCall distinct accepted.count).mp again
    obtain rfl : position = second := Nat.add_left_cancel same
    exact Option.some.inj (key.symm.trans otherKey)
  known := by
    intro id buffer found
    obtain ⟨position, key, given⟩ := Table.exists_of_find?_zip found
    rw [List.getElem?_map, Option.map_eq_some_iff] at key
    obtain ⟨tensor, listed, same⟩ := key
    exact ⟨tensor, List.mem_of_getElem? listed, same, (accepted.each listed given).fits⟩

/-- What a call gives back are the contents of its tensors at the end. -/
theorem Mirrors.returned (distinct : (tensors.map Tensor.id).Nodup)
    (count : buffers.length = tensors.length)
    (mirrors : Mirrors tensors (Setting.ofCall tensors buffers base).place memory heap) :
    Machine.returned base buffers.length heap = memory.ofTensors tensors := by
  rw [count]
  refine Machine.returned_eq fun position small => ?_
  have key : (tensors.map Tensor.id)[position]? = some tensors[position].id := by simp [small]
  obtain ⟨buffer, held, known⟩ :=
    mirrors.held ((Setting.place_ofCall distinct count).mpr ⟨position, key, rfl⟩)
  simp [small, held, known]

/-- The run of a function starts in a frame with the buffers of its tensors. -/
theorem Context.Hosts.anchors (hosts : context.Hosts name tensors)
    (distinct : (tensors.map Tensor.id).Nodup) (accepted : Tensor.AcceptAll tensors buffers)
    (heap : Array Buffer) :
    Anchors [] (fun _ => none) (Setting.ofCall tensors buffers heap.size).place context
      (Frame.enter [] ⟨1⟩ (handles heap.size buffers.length)) := by
  have starts : Represents (fun _ => False) (.ofCall tensors buffers heap.size) context _ _ :=
    hosts.represents distinct accepted (fun no => no.elim) heap
  refine ⟨starts.entered, fun _ none => absurd none List.not_mem_nil, fun {id value} found => ?_⟩
  obtain ⟨handle, buffer, backs⟩ := starts.stored found
  exact ⟨handle, backs.placed, backs.found, backs.typed⟩

/-- A function whose body has an effect, and that ends without a result, has this effect on the
buffers of a call. -/
theorem Context.Hosts.performs {depth : Nat} {done after : Context}
    {effect : Env → Memory → Except Fault Memory} (hosts : context.Hosts name tensors)
    (enacts : Enacts tensors [] depth context done effect)
    (ended : BuildM.endFunction none done = .ok () after)
    (distinct : (tensors.map Tensor.id).Nodup) (accepted : Tensor.AcceptAll tensors buffers)
    (machine : Machine) :
    (Machine.call after.module (depth + 1) name buffers machine).1.Answers buffers
      (effect (fun _ => none) (.ofArgs tensors buffers) >>= fun memory =>
        .ok ([], memory.ofTensors tensors)) := by
  obtain ⟨id, creates⟩ := (BuildM.endFunction_creates done).of_ok ended
  obtain ⟨ops, lists, runs⟩ := enacts.runs
  obtain ⟨op, carries, -⟩ := creates.carries
  have body : after.module.block? ⟨1⟩ = some ⟨parameters tensors, ops ++ [id], some ⟨0⟩⟩ := by
    have built := lists ⟨1⟩ _ _ hosts.stack hosts.body
    exact creates.lists ⟨1⟩ _ _ (enacts.emits.stack.trans hosts.stack) built
  have leads : done.Leads after.module :=
    creates.emits.leads (enacts.emits.atEnds hosts.ends) (.refl _ after.module)
  refine hosts.answers (enacts.emits.leads hosts.ends leads).extends_ body accepted.count
    fun log => ?_
  rw [Machine.advance_append]
  refine (runs after.module depth _ _ _ _ ⟨_, log⟩ (Nat.le_refl _) leads
    (hosts.anchors distinct accepted machine.heap) (.ofCall distinct accepted machine.heap)).bind ?_
  rintro memory step last - ⟨next, rfl, -, -, reached⟩
  have returns : Machine.runOp after.module (Machine.runBlock after.module depth) id next last =
      .ok (.returned []) last :=
    Machine.ret_apply carries.found carries.kind (by rw [carries.operands]; rfl)
  rw [Step.andThen, Machine.advance_singleton, returns]
  exact .of_ok ⟨rfl, reached.returned distinct accepted.count⟩

end Calls

namespace Session

/-- The deeds of a function whose body is to run in a session. -/
def functionDeeds (name : String) (tensors : List Tensor) (body : List Statement)
    (session : Session) : List Deed :=
  match attempt (BuildM.beginFunction name tensors) session with
  | (.ok (_, block), opened) => deedsOfBody body (opened.inside block)
  | _ => []

/-- A function is entered: nothing is bound yet. -/
theorem Runs.stage {name : String} {tensors : List Tensor} {result : Option String}
    {body : List Statement} {session opened done last : Session} {args : List String} {pool : Pool}
    (runs : Runs name tensors result body session opened done last)
    (resolved : args.mapM session.vars.tensor = .ok tensors) (holds : pool.Holds session.vars)
    (calm : session.context.Calm pool) (deferred : session.context.mode = .deferred) :
    ∃ wider, Stage tensors wider [] [] (opened.inside ⟨1⟩) := by
  have begun := attempt_moves holds calm (BuildM.beginFunction_calms name tensors)
  rw [runs.begun] at begun
  obtain ⟨-, wider, le, openedCalm, held⟩ := begun
  exact ⟨wider,
    { holds := held
      calm := (inside_calm openedCalm ⟨1⟩).2
      deferred := runs.mode.trans deferred
      inside := Nat.succ_pos _
      ends := runs.hosts.ends
      rooted := runs.hosts.rooted
      args := fun tensor listed => le.tensor (holds.tensors resolved tensor listed)
      named := fun _ none => absurd none List.not_mem_nil
      bound := fun {id binding} found => by
        rw [runs.hosts.unbound] at found
        cases found }⟩

/-- **Statement programs mean what they say.** A function that was constructed in the deferred
mode over distinct tensors, with a body of loops, conditionals and builds in any order and nesting,
whose deeds are plain and have no nodes in common, does its deeds on the buffers of every call: it
leaves in them what the direct reading of the deeds does, and it fails exactly if this reading has
no result, by the same fault, with the buffers as they were given. -/
theorem function_performs_deeds {setup body : List Statement}
    (constructs : setup.all Statement.constructs = true)
    (imperative : imperativeBody body = true)
    {label : Label} {name : String} {args : List String} {session final : Session}
    {record : Record} (started : (runAll setup (fresh .deferred)).2 = session)
    (ran : runStatement (.function label name args none body) session = (record, final))
    (ended : record.failure = none) {tensors : List Tensor}
    (resolved : args.mapM session.vars.tensor = .ok tensors)
    (distinct : (tensors.map Tensor.id).Nodup)
    {deeds : List Deed} (meant : functionDeeds name tensors body session = deeds)
    (unshared : Deed.Unshared (Deed.allOf deeds)) {buffers : List Buffer}
    (accepted : Tensor.AcceptAll tensors buffers) {depth : Nat}
    (deep : Deed.depthAll deeds ≤ depth) (machine : Machine) :
    (Machine.call final.context.module (depth + 1) name buffers machine).1.Answers buffers
      (Deed.performAll deeds (fun _ => none) (.ofArgs tensors buffers) >>= fun memory =>
        .ok ([], memory.ofTensors tensors)) := by
  have rests : (fresh .deferred).context.Rests session.context := by
    rw [← started]
    exact runAll_defers constructs (fresh .deferred) rfl
  have blank := (fresh_blank .deferred).rests rests
  obtain ⟨opened, done, last, runs, same⟩ := runs_of_ended ran ended resolved blank
  obtain rfl : deedsOfBody body (opened.inside ⟨1⟩) = deeds := by
    rw [← meant, functionDeeds, runs.begun]
  obtain ⟨pool, holds, calm⟩ : ∃ pool : Pool, pool.Holds session.vars ∧
      session.context.Calm pool := by
    rw [← started]
    exact (runAll_passes setup (fresh .deferred)).calm (fun _ _ found => by cases found)
      ⟨Pool.sound_empty _, fun _ _ found => by cases found⟩
  obtain ⟨wider, stage⟩ := runs.stage resolved holds calm rests.mode
  obtain ⟨records, bodyRan⟩ := runs.ran
  have fulfils : Fulfils tensors depth (opened.inside ⟨1⟩)
      (runBody body (opened.inside ⟨1⟩)).2 (deedsOfBody body (opened.inside ⟨1⟩)) :=
    runBody_accomplishes body imperative (by rw [bodyRan]) deep
  rw [bodyRan] at fulfils
  obtain ⟨enacts, -⟩ := fulfils wider [] [] stage { unshared with new := by simp }
  have module : final.context.module = last.context.module := by
    rw [same, assign_context]
    rfl
  rw [module]
  exact runs.hosts.performs enacts (attempt_eq_ok runs.ended) distinct accepted machine

/-! ## A function that changes its buffer -/

/-- The declaration of a tensor of four elements. -/
def rowSetup : List Statement :=
  [.command ⟨some "a", false⟩ (.placeholder "a" [4] .int32)]

/-- The body of a function that doubles what is less than the first element, among as many elements
as this element says, and leaves the last number in the last element. -/
def doublingBody : List Statement :=
  [.command ⟨some "n", false⟩ (.make (.load "a" [.const 0])),
    .loop ⟨none, false⟩ (some "i") (.const 1) (.var "n") ⟨1, none, none, false⟩
      [.command ⟨some "x", false⟩ (.make (.load "a" [.var "i"])),
        .command ⟨some "y", false⟩ (.make (.load "a" [.const 0])),
        .command ⟨some "c", false⟩ (.make (.compare .lt (.var "x") (.var "y"))),
        .conditional ⟨none, false⟩ (.var "c")
          [.command ⟨some "z", false⟩ (.make (.load "a" [.var "i"])),
            .command ⟨some "d", false⟩ (.make (.binary .add (.var "z") (.var "z"))),
            .command ⟨some "s", false⟩ (.make (.store (.var "d") "a" [.var "i"])),
            .command ⟨none, false⟩ (.build "s")],
        .command ⟨some "t", false⟩ (.make (.store (.var "i") "a" [.const 3])),
        .command ⟨none, false⟩ (.build "t")]]

/-- This function. -/
def doubling : Statement := .function ⟨none, false⟩ "doubling" ["a"] none doublingBody

/-- The session before this function. -/
def doublingStart : Session := (runAll rowSetup (fresh .deferred)).2

def rowTensor : Tensor := ⟨0, "a", [4], .int32⟩

def rowBuffer : Buffer := ⟨[4], .int32, #[.int 3, .int 5, .int 1, .int 7]⟩

theorem rowBuffer_accepted : Tensor.AcceptAll [rowTensor] [rowBuffer] := by
  refine .singleton ⟨rfl, rfl, fun scalar inside => ?_⟩
  have cases : scalar = .int 3 ∨ scalar = .int 5 ∨ scalar = .int 1 ∨ scalar = .int 7 := by
    simpa [rowBuffer] using inside
  rcases cases with rfl | rfl | rfl | rfl <;> exact ⟨rfl, by decide⟩

/-- A call of the function does the deeds of its body, which double the third element and set the
last one. -/
theorem doubling_performs_deeds : ∃ memory,
    Deed.performAll (functionDeeds "doubling" [rowTensor] doublingBody doublingStart)
      (fun _ => none) (.ofArgs [rowTensor] [rowBuffer]) = .ok memory ∧
    (memory.ofTensors [rowTensor]).map (fun buffer => buffer.data.map Scalar.asInt?) =
      [#[some 3, some 5, some 2, some 2]] ∧
    (Machine.call (runStatement doubling doublingStart).2.context.module 3 "doubling" [rowBuffer]
      .fresh).1 = ⟨.ok [], memory.ofTensors [rowTensor]⟩ := by
  have resolved : (["a"].mapM doublingStart.vars.tensor).toOption = some [rowTensor] := by
    decide +kernel
  have ended : (runStatement doubling doublingStart).1.failure.isNone = true := by decide +kernel
  have unshared : Deed.Unshared
      (Deed.allOf (functionDeeds "doubling" [rowTensor] doublingBody doublingStart)) := by
    decide +kernel
  have deep : Deed.depthAll
      (functionDeeds "doubling" [rowTensor] doublingBody doublingStart) ≤ 2 := by decide +kernel
  have meaning : (Deed.performAll
      (functionDeeds "doubling" [rowTensor] doublingBody doublingStart) (fun _ => none)
      (.ofArgs [rowTensor] [rowBuffer])).toOption.any (fun memory =>
        (memory.ofTensors [rowTensor]).map (fun buffer => buffer.data.map Scalar.asInt?) =
          [#[some 3, some 5, some 2, some 2]]) = true := by decide +kernel
  obtain ⟨memory, performed, contents⟩ := (Option.any_eq_true ..).mp meaning
  have performed := Except.eq_ok_of_toOption performed
  have started : (runAll rowSetup (fresh .deferred)).2 = doublingStart := by rw [doublingStart]
  have constructs : rowSetup.all Statement.constructs = true := by decide
  have imperative : imperativeBody doublingBody = true := by decide
  rcases ran : runStatement doubling doublingStart with ⟨record, final⟩
  rw [ran] at ended
  generalize meant : functionDeeds "doubling" [rowTensor] doublingBody doublingStart = deeds
    at unshared deep performed
  have answers := function_performs_deeds constructs imperative started ran
    (Option.isNone_iff_eq_none.mp ended) (Except.eq_ok_of_toOption resolved) (by decide) meant
    unshared rowBuffer_accepted deep .fresh
  rw [performed] at answers
  exact ⟨memory, performed, of_decide_eq_true contents, answers.eq_of_ok⟩

end Session

end AffineKernel
