import AffineKernel.Proofs.Modes.Lockstep

/-!
# Constructing in both modes

A constructor records a new node in both modes, under the same identity. In the
deferred mode that is all; in the in-place mode the node may be built at once,
and then the second of two contexts gets ahead (`BuildM.Plans.concurs`).
Between two steps no axis is bound in either context, so a new node is bound in
neither, and the contexts match over the wider pool (`Context.Coupled`).

A store acts, so it is built at once in the in-place mode only, and the contexts
do not match until the deferred mode has built it too. When a store is passed to
be built right after its construction, they do again
(`BuildM.storeSlice_both`).
-/

set_option autoImplicit false

namespace AffineKernel

open Context

namespace Context

variable {permit : Permit} {pool wider widest : Pool} {next : NodeId}
  {first second middle between after last : Context}

/-- Over a wider pool: what is bound was there before. -/
theorem Matched.widen (matched : Matched pool first second) (calm : first.Calm pool)
    (alsoCalm : second.Calm pool) (le : pool.Le wider) (sound : wider.Sound next) :
    Matched wider first second := by
  have old : ∀ {context : Context} {expr : Expr} {binding : Binding}, context.Calm pool →
      wider.expr expr → context.binding? expr.id = some binding → pool.expr expr := by
    intro context expr binding calm member found
    obtain ⟨node, inside, same, -⟩ := calm.plain _ _ found
    exact sound.unique (le.expr inside) member same ▸ inside
  constructor
  · exact fun member plain found => matched.bound (old calm member found) plain found
  · exact matched.twins
  · intro expr partner member plain free found
    obtain ⟨value, same, renders⟩ := matched.ahead (old alsoCalm member found) plain free found
    exact ⟨value, same, renders.widen le⟩
  · exact matched.shown
  · exact matched.alsoShown

/-- Both contexts take an identity. -/
theorem Aligned.count (aligned : Aligned permit first second) :
    Aligned permit { first with nextId := first.nextId + 1 }
      { second with nextId := second.nextId + 1 } :=
  { aligned with
    nextId := congrArg (· + 1) aligned.nextId
    fresh := fun id le => aligned.fresh id (Nat.le_of_succ_le le)
    left := aligned.left.of_same rfl rfl
    right := aligned.right.of_same rfl rfl }

/-- Contexts of the two modes between two steps: they match, no axis is bound, and nothing was
called. The first context is of the deferred mode. -/
structure Coupled (permit : Permit) (pool : Pool) (first second : Context) : Prop where
  twinned : Twinned permit pool first second
  calm : first.Calm pool
  alsoCalm : second.Calm pool
  obeys : pool.Obeys permit
  deferred : first.mode.isInPlace = false

namespace Coupled

theorem sound (paired : Coupled permit pool first second) : pool.Sound first.nextId :=
    paired.calm.sound

/-- Both contexts have taken a step. -/
theorem step (paired : Coupled permit pool first second)
    (step : InStep permit pool first second after last)
    (calm : after.Calm pool) (alsoCalm : last.Calm pool) : Coupled permit pool after last :=
  ⟨step.twinned, calm, alsoCalm, paired.obeys, step.left.mode ▸ paired.deferred⟩

/-- Both contexts have taken an identity for something new, which neither has bound. -/
theorem widen (paired : Coupled permit pool first second) (le : pool.Le wider)
    (sound : wider.Sound (first.nextId + 1)) (obeys : wider.Obeys permit) :
    Coupled permit wider { first with nextId := first.nextId + 1 }
      { second with nextId := second.nextId + 1 } := by
  have calm : ({ first with nextId := first.nextId + 1 } : Context).Calm pool :=
    ⟨paired.calm.sound.mono (Nat.le_succ _), paired.calm.plain⟩
  have alsoCalm : ({ second with nextId := second.nextId + 1 } : Context).Calm pool :=
    ⟨paired.alsoCalm.sound.mono (Nat.le_succ _), paired.alsoCalm.plain⟩
  have matched : Matched wider { first with nextId := first.nextId + 1 }
      { second with nextId := second.nextId + 1 } :=
    (paired.twinned.matched.widen paired.calm paired.alsoCalm le sound).release sound
      (.of_same rfl) (.of_same rfl) (.of_same rfl rfl rfl) (.of_same rfl rfl rfl)
  exact ⟨⟨paired.twinned.aligned.count, matched⟩, calm.widen le sound,
    alsoCalm.widen le (paired.twinned.aligned.nextId ▸ sound), obeys, paired.deferred⟩

end Coupled

/-- Steps of both contexts, from one pool to a wider one. -/
structure Forward (permit : Permit) (pool : Pool) (first second after last : Context)
    (wider : Pool) : Prop where
  le : pool.Le wider
  paired : Coupled permit wider after last
  left : Grown first after
  right : Grown second last

namespace Forward

theorem refl (paired : Coupled permit pool first second) :
    Forward permit pool first second first second pool :=
  ⟨.refl pool, paired, .refl first, .refl second⟩

theorem trans (start : Forward permit pool first second middle between wider)
    (later : Forward permit wider middle between after last widest) :
    Forward permit pool first second after last widest :=
  ⟨start.le.trans later.le, later.paired, start.left.trans later.left,
    start.right.trans later.right⟩

end Forward

/-- A step within a pool. -/
theorem Coupled.forward (paired : Coupled permit pool first second)
    (step : InStep permit pool first second after last)
    (calm : after.Calm pool) (alsoCalm : last.Calm pool) :
    Forward permit pool first second after last pool :=
  ⟨.refl pool, paired.step step calm alsoCalm, step.left, step.right⟩

end Context

/-- What may be recorded quietly may be recorded, and is neither a store nor a call. -/
theorem Permit.records_of_quiet {permit : Permit} {expr : Expr}
    (quiet : permit.quiet.Records expr) :
    permit.Records expr ∧ expr.isCall = false ∧ expr.isStatement = false := by
  cases expr with
  | store => exact quiet.elim
  | call => exact quiet.elim
  | _ => exact ⟨quiet, rfl, rfl⟩

theorem Pool.Obeys.insert {permit : Permit} {pool : Pool} (obeys : pool.Obeys permit) {expr : Expr}
    (records : permit.Records expr) (call : expr.isCall = false) :
    (pool.insert expr).Obeys permit where
  records := by
    rintro other (old | rfl)
    · exact obeys.records old
    · exact records
  uncalled := by
    rintro other (old | rfl)
    · exact obeys.uncalled old
    · exact call

/-- A tensor is no node. -/
theorem Pool.Obeys.insertTensor {permit : Permit} {pool : Pool} (obeys : pool.Obeys permit)
    (tensor : Tensor) : (pool.insertTensor tensor).Obeys permit :=
  ⟨obeys.records, obeys.uncalled⟩

namespace BuildM

variable {α : Type} {permit : Permit} {pool wider : Pool} {first second after last : Context}
  {expr : Expr} {node : NodeId → Expr}

/-! ## Actions over the same nodes -/

/-- From the nodes of a pool an action makes the same in both modes, something good in a wider
pool. -/
def Concurs (permit : Permit) (pool : Pool) (action : BuildM α) (good : Pool → α → Prop) : Prop :=
  ∀ {first second : Context}, Coupled permit pool first second →
    Both action action first second fun a b after last => a = b ∧
      ∃ wider, Forward permit pool first second after last wider ∧ good wider a

namespace Concurs

variable {good : Pool → α → Prop}

theorem pure {a : α} (made : good pool a) : Concurs permit pool (Pure.pure a) good :=
  fun paired => (both_pure ..).mpr ⟨rfl, pool, .refl paired, made⟩

theorem throw (error : BuildError) : Concurs permit pool (MonadExcept.throw error) good :=
  fun _ => Both.throw_left _ _

/-- A first step that leaves the contexts coupled over a wider pool. -/
theorem follow {action : BuildM α} {middle between : Context}
    (start : Forward permit pool first second middle between wider)
    (concurs : Concurs permit wider action good) :
    Both action action middle between fun a b after last => a = b ∧
      ∃ widest, Forward permit pool first second after last widest ∧ good widest a := by
  refine (concurs start.paired).mono ?_
  rintro a b after last ⟨same, widest, later, made⟩
  exact ⟨same, widest, start.trans later, made⟩

end Concurs

/-! ## New nodes -/

/-- A new node is recorded, and perhaps built. -/
theorem finish_ok {context : Context} (made : finish node context = .ok expr after) :
    expr = node context.nextId ∧
      (after = { context with nextId := context.nextId + 1 } ∨
        context.mode.isInPlace = true ∧
          ({ context with nextId := context.nextId + 1 } : Context).isReady expr = true ∧
          ∃ binding,
            build expr { context with nextId := context.nextId + 1 } = .ok binding after) := by
  obtain ⟨id, counted, taken, made⟩ := EStateM.bind_eq_ok made
  cases taken
  rw [EStateM.get_bind_apply] at made
  split at made
  · rename_i ready
    rw [Bool.and_eq_true] at ready
    obtain ⟨binding, last, built, made⟩ := EStateM.bind_eq_ok made
    cases made
    exact ⟨rfl, .inr ⟨ready.1, ready.2, binding, built⟩⟩
  · cases made
    exact ⟨rfl, .inl rfl⟩

/-- Both contexts take an identity. -/
theorem freshId_both (paired : Coupled permit pool first second) (le : pool.Le wider)
    (sound : wider.Sound (first.nextId + 1)) (obeys : wider.Obeys permit) :
    Both freshId freshId first second fun id other after last => id = other ∧ id = first.nextId ∧
      after = { first with nextId := first.nextId + 1 } ∧
      Forward permit pool first second after last wider := by
  intro id other after last taken also
  cases taken
  cases also
  exact ⟨paired.twinned.aligned.nextId, rfl, rfl, le, paired.widen le sound obeys,
    .of_same rfl rfl rfl, .of_same rfl rfl rfl⟩

/-- A new node without effects: the second context may get ahead with it. -/
theorem finish_both (paired : Coupled permit pool first second) (fresh : ∀ id, (node id).id = id)
    (quiet : ∀ id, permit.quiet.Records (node id)) (accepts : ∀ id, pool.Accepts (node id)) :
    Both (finish node) (finish node) first second fun a b after last => a = b ∧
      a = node first.nextId ∧ Forward permit pool first second after last (pool.insert a) := by
  intro a b after last made also
  obtain ⟨rfl, done⟩ := finish_ok made
  obtain ⟨rfl, leapt⟩ := finish_ok also
  have same := paired.twinned.aligned.nextId
  rw [← same] at leapt ⊢
  refine ⟨rfl, rfl, ?_⟩
  have sound := paired.sound.insert (fresh first.nextId) (accepts first.nextId)
  have le := pool.le_insert (node first.nextId)
  obtain ⟨records, call, valued⟩ := Permit.records_of_quiet (quiet first.nextId)
  have obeys := paired.obeys.insert records call
  have grown := paired.widen le sound obeys
  rw [← same] at grown
  rcases done with rfl | ⟨inPlace, -⟩
  · rcases leapt with rfl | ⟨-, ready, binding, built⟩
    · exact ⟨le, grown, .of_same rfl rfl rfl, .of_same rfl rfl rfl⟩
    · have counted : Grown second { second with nextId := first.nextId + 1 } := .of_same rfl rfl rfl
      have ahead := build_precedes grown.obeys _ (.inr rfl) valued grown.twinned grown.alsoCalm
        ready built
      exact ⟨le, ⟨ahead.twinned, grown.calm, ahead.calm, grown.obeys, grown.deferred⟩,
        .of_same rfl rfl rfl, counted.trans ahead.grown⟩
  · rw [paired.deferred] at inPlace
    cases inPlace

/-- **Constructors concur.** All steps of a plan without effects make the same in both modes. -/
theorem Plans.concurs {action : BuildM α} {good : Pool → α → Prop}
    (plans : Plans permit.quiet pool action good) : Concurs permit pool action good := by
  induction plans with
  | pure made => exact Concurs.pure made
  | throw error => exact Concurs.throw error
  | @emit_bind _ event _ _ _ ih =>
      intro first second paired
      rw [both_bind, both_emit]
      have step := emit_inStep paired.sound paired.twinned event event
      exact Concurs.follow (paired.forward step ⟨paired.calm.sound, paired.calm.plain⟩
        ⟨paired.alsoCalm.sound, paired.alsoCalm.plain⟩) ih
  | @finish_bind _ node _ _ fresh quiet accepts _ ih =>
      intro first second paired
      rw [both_bind]
      refine (finish_both paired fresh quiet accepts).mono ?_
      rintro _ _ after last ⟨rfl, rfl, forward⟩
      exact Concurs.follow forward (ih _)
  | axis_bind accepts _ ih =>
      intro first second paired
      simp only [axis, bind_assoc, pure_bind, both_bind]
      refine (freshId_both paired (Pool.le_insert ..) (paired.sound.insert rfl (accepts _))
        (paired.obeys.insert trivial rfl)).mono ?_
      rintro _ _ after last ⟨rfl, rfl, -, forward⟩
      exact Concurs.follow forward (ih _)
  | @placeholder_bind pool name shape dtype _ _ _ ih =>
      intro first second paired
      simp only [placeholder, bind_assoc, pure_bind, both_bind]
      have sound : (pool.insertTensor ⟨first.nextId, name, shape, dtype⟩).Sound
        (first.nextId + 1) :=
        paired.sound.insertTensor rfl
      refine (freshId_both paired (Pool.le_insertTensor ..) sound
        (paired.obeys.insertTensor _)).mono ?_
      rintro _ _ after last ⟨rfl, rfl, -, forward⟩
      exact Concurs.follow forward (ih _)

/-! ## Building -/

theorem build_calm {context : Context} (calm : context.Calm pool) (member : pool.expr expr) :
    Ensures (build expr) context (fun _ after => after.Calm pool) fun _ => True :=
  (calm_tracks.build member calm).mono (fun _ _ kept => kept.2) fun _ _ => trivial

/-- Coupled contexts build a node of the pool. -/
theorem build_forward (paired : Coupled permit pool first second) (member : pool.expr expr) :
    Both (build expr) (build expr) first second fun binding partner after last =>
      Forward permit pool first second after last pool ∧
        Binding.Match after.module last.module binding partner := by
  refine ((build_both paired.sound paired.obeys expr member paired.twinned).and_ensures
    (build_calm paired.calm member) (build_calm paired.alsoCalm member)).mono ?_
  rintro binding partner after last ⟨⟨step, matched⟩, calm, alsoCalm⟩
  exact ⟨paired.forward step calm alsoCalm, matched⟩

theorem buildValue_forward (paired : Coupled permit pool first second) (member : pool.expr expr) :
    Both (buildValue expr) (buildValue expr) first second fun value partner after last =>
      Forward permit pool first second after last pool ∧
        Module.Twins after.module last.module value partner := by
  simp only [buildValue, both_bind]
  refine (build_forward paired member).mono ?_
  rintro binding partner middle between ⟨forward, matched⟩
  cases matched with
  | value twins => exact (both_pure ..).mpr ⟨forward, twins⟩
  | op _ => exact Both.throw_left _ _

theorem buildAll_forward {exprs : List Expr} (paired : Coupled permit pool first second)
    (members : ∀ expr ∈ exprs, pool.expr expr) :
    Both (buildAll exprs) (buildAll exprs) first second fun _ _ after last =>
      Forward permit pool first second after last pool := by
  induction exprs generalizing first second with
  | nil => exact (both_pure ..).mpr (.refl paired)
  | cons expr rest ih =>
      simp only [buildAll, both_bind]
      refine (build_forward paired (members expr List.mem_cons_self)).mono ?_
      rintro _ _ middle between ⟨forward, -⟩
      exact (ih forward.paired fun other listed => members other
        (List.mem_cons_of_mem _ listed)).mono
        fun _ _ _ _ later => forward.trans later

/-- A store that is built right after its construction: the contexts are coupled again. -/
theorem storeSlice_both {value : BuildM Expr} {slice : Slice} {args : List IndexArg}
    (plans : Plans permit.quiet pool value fun wider expr => wider.expr expr)
    (whole : pool.slice slice)
    (members : ∀ arg ∈ args, pool.index arg) (may : permit.stores slice.tensor)
    (paired : Coupled permit pool first second) :
    Both (storeSlice value slice args) (storeSlice value slice args) first second
      fun a b middle between => a = b ∧ ∃ wider : Pool, wider.expr a ∧
        Both (build a) (build a) middle between fun _ _ after last =>
          Forward permit pool first second after last wider := by
  rw [storeSlice_eq, both_bind]
  refine ((storeParts_plans plans whole members).concurs paired).mono ?_
  rintro parts _ early start ⟨rfl, inner, begun, accepts⟩
  intro a b middle between made also
  obtain ⟨rfl, done⟩ := finish_ok made
  obtain ⟨rfl, leapt⟩ := finish_ok also
  have same := begun.paired.twinned.aligned.nextId
  rw [← same] at leapt ⊢
  refine ⟨rfl, inner.insert (.store early.nextId slice.tensor parts.1 parts.2), .inr rfl, ?_⟩
  have sound := begun.paired.sound.insert rfl (accepts early.nextId)
  have grown := begun.paired.widen (inner.le_insert _) sound (begun.paired.obeys.insert may rfl)
  rw [← same] at grown
  have counted : Forward permit pool first second { early with nextId := early.nextId + 1 }
      { start with nextId := early.nextId + 1 } _ :=
    begun.trans ⟨inner.le_insert _, grown, .of_same rfl rfl rfl, .of_same rfl rfl rfl⟩
  have built := (build_forward grown (.inr rfl)).mono
    fun _ _ _ _ forward => counted.trans forward.1
  rcases done with rfl | ⟨inPlace, -⟩
  · rcases leapt with rfl | ⟨-, -, known, ready⟩
    · exact built
    · -- The store was built when it was constructed, so it is not built again.
      intro binding partner after last ended finished
      rw [build_of_bound (build_bound ready)] at finished
      cases finished
      exact built _ _ _ _ ended ready
  · rw [begun.paired.deferred] at inPlace
    cases inPlace

end BuildM

end AffineKernel
