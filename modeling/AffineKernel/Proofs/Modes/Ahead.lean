import AffineKernel.Proofs.Modes.Emission
import AffineKernel.Proofs.Script.Sharing

/-!
# Getting ahead, and catching up

In the in-place mode a new node that is ready is built at once. The second of two
contexts then gets ahead of the first one: all that it builds are plain nodes, as
a reduction is ready only when it is bound, and what it adds are pure operations
(`BuildM.build_precedes`).

When the first context builds a node that the second one has bound, it catches
up. It may have to build operands that the second context has bound as well, and
arrives at values with the trees that the second context has
(`BuildM.build_catches`).
-/

set_option autoImplicit false

namespace AffineKernel

open Context

/-- Whether a node is a call. -/
def Expr.isCall : Expr → Bool
  | .call .. => true
  | _ => false

namespace Expr

theorem sizeOf_operand {expr operand : Expr} (listed : operand ∈ expr.operands) :
    sizeOf operand < sizeOf expr := by
  cases expr with
  | call id dtype callee args =>
      have := sizeOf_callArg listed
      simp only [call.sizeOf_spec]
      omega
  | constant | loopVar | axis => simp [operands] at listed
  | load | store | reduce =>
      simp only [operands, List.mem_cons] at listed
      simp only [load.sizeOf_spec, store.sizeOf_spec, reduce.sizeOf_spec]
      first
        | have := List.sizeOf_lt_of_mem listed
          omega
        | rcases listed with rfl | listed
          · omega
          · have := List.sizeOf_lt_of_mem listed
            omega
  | unary | cast | binary | compare | getBit | select =>
      simp only [operands, List.mem_cons, List.not_mem_nil, or_false] at listed
      simp only [unary.sizeOf_spec, cast.sizeOf_spec, binary.sizeOf_spec, compare.sizeOf_spec,
        getBit.sizeOf_spec, select.sizeOf_spec]
      rcases listed with rfl | rfl | rfl <;> omega

theorem sizeOf_bound {expr bound : Expr} (listed : bound ∈ expr.bounds) :
    sizeOf bound < sizeOf expr := by
  have small : ∀ {side : Bound}, bound ∈ side.exprs → sizeOf bound < sizeOf side := by
    intro side inside
    cases side with
    | const value => simp [Bound.exprs] at inside
    | expr value =>
        rw [Bound.exprs, List.mem_singleton] at inside
        simp only [inside, Bound.expr.sizeOf_spec]
        omega
  cases expr with
  | axis id name lower upper =>
      simp only [axis.sizeOf_spec]
      rcases List.mem_append.mp listed with low | high
      · have := small low
        omega
      · have := small high
        omega
  | _ => simp [bounds] at listed

end Expr

/-- The operands of a plain node have values. -/
theorem Expr.Formed.valued {expr : Expr} (formed : expr.Formed) (plain : expr.isPlain = true) :
    ∀ operand ∈ expr.valueOperands, operand.isStatement = false := by
  cases expr with
  | unary | cast | getBit | binary | compare | select =>
      simp only [valueOperands, operands, isStatement, List.mem_cons, List.not_mem_nil, or_false]
      simp only [Formed] at formed
      grind
  | constant | load => simp [valueOperands, operands]
  | _ => cases plain

/-- The nodes of a pool are of a permit, and none of them is a call. -/
structure Pool.Obeys (permit : Permit) (pool : Pool) : Prop where
  records : ∀ {expr : Expr}, pool.expr expr → permit.Records expr
  uncalled : ∀ {expr : Expr}, pool.expr expr → expr.isCall = false

namespace Context

variable {permit : Permit} {pool : Pool} {next : NodeId}
    {context before after first second : Context}
  {expr : Expr} {trees : List Tree} {values : List Value}

namespace Twinned

variable (twinned : Twinned permit pool first second) (sound : pool.Sound next)
include twinned sound

/-- Pure operations in the first context. -/
theorem enriches_left (enriches : Enriches permit first after) : Twinned permit pool after second :=
  ⟨enriches.aligned_left twinned.aligned, twinned.matched.release sound (.of_same enriches.same.1)
    (.of_same rfl) enriches.grown (.refl second)⟩

/-- Pure operations in the second context. -/
theorem enriches_right (enriches : Enriches permit second after) :
    Twinned permit pool first after :=
  ⟨enriches.aligned_right twinned.aligned, twinned.matched.release sound (.of_same rfl)
    (.of_same enriches.same.1) (.refl first) enriches.grown⟩

end Twinned

/-! ## Readiness -/

mutual

/-- What is ready stays ready. -/
theorem isReady_mono (stays : Stays before after)
    (stored : ∀ tensor, before.hasStorage tensor = true → after.hasStorage tensor = true) :
    ∀ expr : Expr, before.isReady expr = true → after.isReady expr = true
  | .constant .., _ => by rw [isReady]
  | .loopVar id _, ready | .axis id _ _ _, ready => by
      rw [isReady] at ready ⊢
      exact stays.isBound ready
  | .reduce id _ _ _ _, ready => by
      rw [isReady] at ready ⊢
      exact stays.isBound ready
  | .unary id _ _ operand, ready | .cast id _ operand, ready => by
      rw [isReady, Bool.or_eq_true] at ready ⊢
      exact ready.imp stays.isBound (isReady_mono stays stored operand)
  | .binary id _ _ lhs rhs, ready | .compare id _ lhs rhs, ready | .getBit id lhs rhs, ready => by
      rw [isReady, Bool.or_eq_true, Bool.and_eq_true] at ready ⊢
      exact ready.imp stays.isBound (And.imp (isReady_mono stays stored lhs)
        (isReady_mono stays stored rhs))
  | .load id tensor indices, ready => by
      rw [isReady, Bool.or_eq_true, Bool.and_eq_true] at ready ⊢
      exact ready.imp stays.isBound (And.imp (stored tensor) (allReady_mono stays stored indices))
  | .store id tensor value indices, ready => by
      rw [isReady, Bool.or_eq_true, Bool.and_eq_true, Bool.and_eq_true] at ready ⊢
      exact ready.imp stays.isBound
        (And.imp (And.imp (stored tensor) (isReady_mono stays stored value))
          (allReady_mono stays stored indices))
  | .select id _ condition thenValue elseValue, ready => by
      rw [isReady, Bool.or_eq_true, Bool.and_eq_true, Bool.and_eq_true] at ready ⊢
      exact ready.imp stays.isBound (And.imp
        (And.imp (isReady_mono stays stored condition) (isReady_mono stays stored thenValue))
          (isReady_mono stays stored elseValue))
  | .call id _ _ args, ready => by
      rw [isReady, Bool.or_eq_true, Bool.and_eq_true] at ready ⊢
      refine ready.imp stays.isBound (And.imp (fun all => ?_) (argsReady_mono stays stored args))
      rw [List.all_eq_true] at all ⊢
      exact fun tensor listed => stored tensor (all tensor listed)

theorem allReady_mono (stays : Stays before after)
    (stored : ∀ tensor, before.hasStorage tensor = true → after.hasStorage tensor = true) :
    ∀ exprs : List Expr, before.allReady exprs = true →
      after.allReady exprs = true
  | [], _ => by rw [allReady]
  | expr :: rest, ready => by
      rw [allReady, Bool.and_eq_true] at ready ⊢
      exact And.imp (isReady_mono stays stored expr) (allReady_mono stays stored rest) ready

theorem argsReady_mono (stays : Stays before after)
    (stored : ∀ tensor, before.hasStorage tensor = true → after.hasStorage tensor = true) :
    ∀ args : List CallArg, before.argsReady args = true →
      after.argsReady args = true
  | [], _ => by rw [argsReady]
  | .expr value :: rest, ready => by
      rw [argsReady, Bool.and_eq_true] at ready ⊢
      exact And.imp (isReady_mono stays stored value) (argsReady_mono stays stored rest) ready
  | .tensor _ :: rest, ready => by
      rw [argsReady] at ready ⊢
      exact argsReady_mono stays stored rest ready

end

theorem hasStorage_mono (grown : Grown before after) (tensor : Tensor)
    (stored : before.hasStorage tensor = true) : after.hasStorage tensor = true := by
  obtain ⟨value, found⟩ := Option.isSome_iff_exists.mp stored
  exact Option.isSome_iff_exists.mpr ⟨value, grown.storage found⟩

/-- A ready node with a value that is not bound is plain, and its operands are ready. -/
theorem isReady_cases (ready : context.isReady expr = true)
    (unbound : context.binding? expr.id = none) (valued : expr.isStatement = false)
    (uncalled : expr.isCall = false) :
    expr.isPlain = true ∧ ∀ operand ∈ expr.valueOperands, context.isReady operand = true := by
  have free : context.isBound expr.id = false := by rw [isBound, unbound]; rfl
  cases expr with
  | constant | load => exact ⟨rfl, by simp [Expr.valueOperands, Expr.operands]⟩
  | loopVar | axis | reduce =>
      rw [isReady] at ready
      rw [Expr.id, ready] at free
      cases free
  | store => cases valued
  | call => cases uncalled
  | _ =>
      refine ⟨rfl, ?_⟩
      rw [isReady] at ready
      simp only [Expr.id] at free
      simpa [free, Expr.valueOperands, Expr.operands, and_assoc] using ready

end Context

namespace BuildM

variable {permit : Permit} {pool : Pool} {next : NodeId} {context after first second : Context}
    {expr : Expr}
  {nodes : List Expr} {trees : List Tree} {values : List Value} {value : Value}
  {binding partner : Binding}

theorem buildValue_ok (built : buildValue expr context = .ok value after) :
    build expr context = .ok (.value value) after := by
  obtain ⟨binding, middle, made, needed⟩ := EStateM.bind_eq_ok built
  cases binding with
  | op id => cases needed
  | value held =>
      cases needed
      exact made

/-! ## Catching up -/

/-- The first context catches up with nodes one by one. -/
theorem buildValues_catch
    (each : ∀ operand ∈ nodes, ∀ {first after : Context} {binding partner : Binding},
      operand.isAxis = false → Twinned permit pool first second →
      second.binding? operand.id = some partner → build operand first = .ok binding after →
      Twinned permit pool after second ∧ Grown first after ∧
        Binding.Match after.module second.module binding partner)
    (bears : List.Forall₂ second.Bears nodes trees) (twinned : Twinned permit pool first second)
    (made : nodes.mapM buildValue first = .ok values after) :
    Twinned permit pool after second ∧ Grown first after ∧ after.module.ShowsAll trees values := by
  induction bears generalizing first values with
  | nil =>
      cases made
      exact ⟨twinned, .refl _, rfl⟩
  | @cons operand tree rest trees here _ ih =>
      rw [List.mapM_cons] at made
      obtain ⟨value, middle, built, made⟩ := EStateM.bind_eq_ok made
      obtain ⟨others, last, builtRest, same⟩ := EStateM.bind_eq_ok made
      cases same
      obtain ⟨plain, partner, known, shows_⟩ := here
      obtain ⟨twinned, grown, matched⟩ :=
        each operand List.mem_cons_self plain twinned known (buildValue_ok built)
      obtain ⟨twinned, more, all⟩ := ih (fun other listed => each other
        (List.mem_cons_of_mem _ listed)) twinned builtRest
      refine ⟨twinned, grown.trans more, value, others, rfl, ?_, all⟩
      cases matched with
      | value twins =>
          obtain ⟨shared, left, right⟩ := twins
          rw [Module.Shows.unique _ _ shows_ right]
          exact more.module.shows shared left

/-- A node that the second context has bound is built in the first one as well. -/
theorem build_catches (sound : pool.Sound next) (obeys : pool.Obeys permit) (expr : Expr)
    (member : pool.expr expr) {first after : Context} {binding partner : Binding}
    (plain : expr.isAxis = false) (twinned : Twinned permit pool first second)
    (known : second.binding? expr.id = some partner)
    (built : build expr first = .ok binding after) :
    Twinned permit pool after second ∧ Grown first after ∧
      Binding.Match after.module second.module binding partner := by
  cases found : first.binding? expr.id with
  | some old =>
      rw [build_of_bound found] at built
      cases built
      exact ⟨twinned, .refl first, twinned.matched.twins found known⟩
  | none =>
      obtain ⟨value, rfl, tree, trees, shows_, -, bears, forms⟩ :=
        twinned.matched.ahead member plain found known
      rcases build_plain_ok forms.isPlain built with ⟨bound, -⟩ | ⟨-, made⟩
      · rw [found] at bound
        cases bound
      obtain ⟨values, middle, result, last, made, emitted, rfl, rfl⟩ := made
      have logged : Enriches permit first (first.emit (.materialize expr.id expr.name)) :=
        .log _ .refl
      obtain ⟨between, grown, all⟩ := buildValues_catch
        (fun operand listed _ _ _ _ => build_catches sound obeys operand
          (sound.operands member operand (Expr.valueOperands_subset _ _ listed)))
        bears (twinned.enriches_left sound logged) made
      -- Both contexts form the same tree, so the new value has the tree of the old one.
      obtain ⟨other, also, shown, enriches⟩ :=
        emitNode_forms between.left (obeys.records member) all emitted
      obtain rfl := between.forms_eq also forms
      have twins : Module.Twins last.module second.module result value := ⟨_, shown, shows_⟩
      have done := between.enriches_left sound enriches
      refine ⟨⟨done.aligned.alike (.bind ..) (.refl second), done.matched.bind_left known twins⟩,
        ?_, .value twins⟩
      have whole := (logged.grown.trans grown).trans
        enriches.grown
      exact whole.trans (.of_same rfl rfl rfl)
termination_by sizeOf expr
decreasing_by exact Expr.Uses.sizeOf_lt listed

/-! ## Getting ahead -/

/-- Building a node does not bind a larger one. -/
theorem build_free (sound : pool.Sound next) {root : Expr} (inside : pool.expr root)
    (member : pool.expr expr) (below : sizeOf expr < sizeOf root)
    (built : build expr context = .ok binding after) (free : context.binding? root.id = none) :
    after.binding? root.id = none := by
  have names : Names (fun node => pool.expr node ∧ sizeOf node < sizeOf root)
      (fun id => ∃ node, (pool.expr node ∧ sizeOf node < sizeOf root) ∧ node.id = id) :=
    { operands := fun {node} small operand listed =>
        ⟨sound.operands small.1 operand listed, Nat.lt_trans (Expr.sizeOf_operand listed) small.2⟩
      bounds := fun {node} small bound listed =>
        ⟨(sound.accepts small.1).bounds bound listed, Nat.lt_trans (Expr.sizeOf_bound listed)
          small.2⟩
      named := fun {node} small _ => ⟨node, small, rfl⟩ }
  have turns := (build_turns names expr ⟨member, below⟩ (fun _ _ => trivial) context).of_ok built
  cases found : after.binding? root.id with
  | none => rfl
  | some bound =>
      rcases turns.new _ _ found with old | ⟨node, ⟨there, small⟩, same⟩
      · rw [free] at old
        cases old
      · rw [sound.unique there inside same] at small
        exact absurd small (Nat.lt_irrefl _)

theorem buildValues_free (sound : pool.Sound next) {root : Expr} (inside : pool.expr root)
    (members : ∀ operand ∈ nodes, pool.expr operand ∧ sizeOf operand < sizeOf root)
    (free : context.binding? root.id = none)
    (made : nodes.mapM buildValue context = .ok values after) : after.binding? root.id = none := by
  induction nodes generalizing context values with
  | nil =>
      cases made
      exact free
  | cons operand rest ih =>
      rw [List.mapM_cons] at made
      obtain ⟨value, middle, built, made⟩ := EStateM.bind_eq_ok made
      obtain ⟨others, last, builtRest, same⟩ := EStateM.bind_eq_ok made
      cases same
      obtain ⟨member, small⟩ := members operand List.mem_cons_self
      exact ih (fun other listed => members other (List.mem_cons_of_mem _ listed))
        (build_free sound inside member small (buildValue_ok built) free) builtRest

/-- Building the operands of a node does not bind it. -/
theorem operands_free (sound : pool.Sound next) (member : pool.expr expr)
    (free : context.binding? expr.id = none)
    (made : expr.valueOperands.mapM buildValue (context.emit (.materialize expr.id expr.name)) =
      .ok values after) : after.binding? expr.id = none := by
  refine buildValues_free sound member (fun operand listed => ⟨?_, Expr.Uses.sizeOf_lt listed⟩) ?_
    made
  · exact sound.operands member operand (Expr.valueOperands_subset _ _ listed)
  · exact free

/-- In a calm context, building loses no binding. -/
theorem build_stays (calm : context.Calm pool) (member : pool.expr expr)
    (built : build expr context = .ok binding after) : Stays context after ∧ after.Calm pool := by
  have unswept : context.Unswept pool := fun id axis => by
    rw [isBound, calm.axis_free axis]
    rfl
  obtain ⟨-, made, runs, -⟩ := (build_runs calm.sound expr member context unswept).of_ok built
  exact ⟨runs.stays, ((calm_tracks.build member calm).of_ok built).2⟩

/-- What the second context gets ahead with. -/
structure Precedes (permit : Permit) (pool : Pool) (first second after : Context) : Prop where
  twinned : Twinned permit pool first after
  grown : Grown second after
  calm : after.Calm pool
  stays : Stays second after

namespace Precedes

theorem refl (twinned : Twinned permit pool first second) (calm : second.Calm pool) :
    Precedes permit pool first second second :=
  ⟨twinned, .refl second, calm, Stays.chains.refl second⟩

theorem trans {middle : Context} (start : Precedes permit pool first second middle)
    (later : Precedes permit pool first middle after) : Precedes permit pool first second after :=
  ⟨later.twinned, start.grown.trans later.grown, later.calm,
    Stays.chains.trans start.stays later.stays⟩

theorem ready (precedes : Precedes permit pool first second after)
    (ready : second.isReady expr = true) : after.isReady expr = true :=
  isReady_mono precedes.stays (hasStorage_mono precedes.grown) expr ready

theorem enriches (twinned : Twinned permit pool first second) (calm : second.Calm pool)
    (enriches : Enriches permit second after) : Precedes permit pool first second after where
  twinned := twinned.enriches_right calm.sound enriches
  grown := enriches.grown
  calm := ⟨enriches.same.2.2.2.1 ▸ calm.sound, fun id binding found =>
    calm.plain id binding (by rwa [binding?, enriches.same.1] at found)⟩
  stays := .of_same fun id => congrArg (Table.find? · id) enriches.same.1

theorem keeps (precedes : Precedes permit pool first second after) :
    Context.Keeps pool second after :=
  fun id binding _ found => precedes.stays id binding found

end Precedes

/-- The second context gets ahead with nodes one by one. -/
theorem buildValues_precede (members : ∀ operand ∈ nodes, pool.expr operand)
    (each : ∀ operand ∈ nodes, ∀ {second after : Context} {binding : Binding},
      Twinned permit pool first second → second.Calm pool → second.isReady operand = true →
      build operand second = .ok binding after → Precedes permit pool first second after)
    (twinned : Twinned permit pool first second) (calm : second.Calm pool)
    (ready : ∀ operand ∈ nodes, second.isReady operand = true)
    (made : nodes.mapM buildValue second = .ok values after) :
    Precedes permit pool first second after ∧ ∃ trees, List.Forall₂ after.Bears nodes trees ∧
      after.module.ShowsAll trees values := by
  induction nodes generalizing second values with
  | nil =>
      cases made
      exact ⟨.refl twinned calm, [], .nil, rfl⟩
  | cons operand rest ih =>
      rw [List.mapM_cons] at made
      obtain ⟨value, middle, built, made⟩ := EStateM.bind_eq_ok made
      obtain ⟨others, last, builtRest, same⟩ := EStateM.bind_eq_ok made
      cases same
      have built := buildValue_ok built
      have start := each operand List.mem_cons_self twinned calm
        (ready operand List.mem_cons_self) built
      obtain ⟨later, trees, bears, all⟩ := ih
        (fun other listed => members other (List.mem_cons_of_mem _ listed))
        (fun other listed => each other (List.mem_cons_of_mem _ listed)) start.twinned start.calm
        (fun other listed => start.ready (ready other (List.mem_cons_of_mem _ listed))) builtRest
      have known := build_bound built
      obtain ⟨tree, shows_⟩ := start.twinned.matched.alsoShown known
      have member := members operand List.mem_cons_self
      have plain : operand.isAxis = false := by
        obtain ⟨other, inside, same, plain⟩ := start.calm.plain _ _ known
        exact start.calm.sound.unique inside member same ▸ plain
      have here : after.Bears operand tree := ⟨plain, value, later.stays _ _ known,
        later.grown.module.shows tree shows_⟩
      exact ⟨start.trans later, tree :: trees, .cons here bears, value, others, rfl,
        later.grown.module.shows tree shows_, all⟩

/-- What the second context builds because it is ready is rendered there. -/
theorem build_precedes (obeys : pool.Obeys permit) (expr : Expr) (member : pool.expr expr)
    (valued : expr.isStatement = false) {second after : Context} {binding : Binding}
    (twinned : Twinned permit pool first second) (calm : second.Calm pool)
    (ready : second.isReady expr = true) (built : build expr second = .ok binding after) :
    Precedes permit pool first second after := by
  have sound := calm.sound
  obtain ⟨stays, done⟩ := build_stays calm member built
  cases found : second.binding? expr.id with
  | some old =>
      rw [build_of_bound found] at built
      cases built
      exact .refl twinned calm
  | none =>
      obtain ⟨plain, below⟩ := isReady_cases ready found valued (obeys.uncalled member)
      have members : ∀ operand ∈ expr.valueOperands, pool.expr operand := fun operand listed =>
        sound.operands member operand (Expr.valueOperands_subset _ _ listed)
      rcases build_plain_ok plain built with ⟨bound, -⟩ | ⟨-, made⟩
      · rw [found] at bound
        cases bound
      obtain ⟨values, middle, result, last, made, emitted, rfl, rfl⟩ := made
      have logged : Precedes permit pool first second
        (second.emit (.materialize expr.id expr.name)) :=
        .enriches twinned calm (.log _ .refl)
      have unbound : middle.binding? expr.id = none := operands_free sound member found made
      obtain ⟨start, trees, bears, all⟩ := buildValues_precede members
        (fun operand listed _ _ _ => build_precedes obeys operand (members operand listed)
          ((sound.formed member).valued plain operand listed))
        logged.twinned logged.calm (fun operand listed => logged.ready (below operand listed)) made
      obtain ⟨tree, forms, shown, enriches⟩ := emitNode_forms start.twinned.right
        (obeys.records member) all emitted
      have later := Precedes.enriches start.twinned start.calm enriches
      -- No axis is bound, so whatever loop variable was found is none.
      have level : Context.Level pool expr := forms.level fun id binding found =>
        start.calm.plain id binding found
      have renders : Renders pool last expr result := ⟨tree, trees, shown, level,
        bears_mono members later.keeps later.grown bears, forms.mono level later.keeps later.grown⟩
      have free : last.binding? expr.id = none := by rwa [binding?, enriches.same.1]
      have grown := logged.grown.trans (start.grown.trans later.grown)
      exact ⟨⟨later.twinned.aligned.alike (.refl first) (.bind ..),
        later.twinned.matched.bind_right sound member free (Expr.isAxis_of_isPlain plain) renders⟩,
        grown.trans (.of_same rfl rfl rfl), done, stays⟩
termination_by sizeOf expr
decreasing_by exact Expr.Uses.sizeOf_lt listed

end BuildM

end AffineKernel
