import AffineKernel.Build.Context

/-!
# Outcomes of build actions

A build action ends in a result or in a failure, and in a context in both cases.
`BuildM.Ensures` says what holds of the outcome of an action from one context;
its equations follow the steps of an action, so that a statement about an action
becomes one about its steps. `BuildM.Leads` is the special case of a relation
between the contexts before and after, with another one for failures, and
`BuildM.Keeps` that of one relation whatever the outcome. They hold of an action
when they hold of its steps, if the relations go together from step to step
(`BuildM.Courses`, `BuildM.Chains`).
-/

set_option autoImplicit false

namespace AffineKernel

/-- What has passed step by step has passed each step. -/
theorem Except.bind_eq_ok {ε α β : Type} {first : Except ε α} {next : α → Except ε β} {b : β}
    (passed : (first >>= next) = .ok b) : ∃ a, first = .ok a ∧ next a = .ok b := by
  cases first with
  | ok a => exact ⟨a, rfl, passed⟩
  | error error => cases passed

theorem Except.eq_ok_of_toOption {ε α : Type} {outcome : Except ε α} {a : α}
    (passed : outcome.toOption = some a) : outcome = .ok a := by
  cases outcome with
  | ok b =>
      cases passed
      rfl
  | error error => cases passed

/-- Two outcomes as one. -/
theorem Except.pair_eq_ok {ε α β : Type} {first : Except ε α} {second : Except ε β} {pair : α × β}
    (passed : (do return (← first, ← second)) = Except.ok pair) :
    first = .ok pair.1 ∧ second = .ok pair.2 := by
  obtain ⟨a, left, passed⟩ := bind_eq_ok passed
  obtain ⟨b, right, passed⟩ := bind_eq_ok passed
  cases passed
  exact ⟨left, right⟩

theorem Except.pair_bind {ε α β γ : Type} (first : Except ε α) (second : Except ε β)
    (next : α × β → Except ε γ) :
    (do return (← first, ← second)) >>= next = first >>= fun a => second >>= fun b => next (a, b) := by
  cases first with
  | error error => rfl
  | ok a => cases second <;> rfl

theorem EStateM.bind_eq_ok {ε σ α β : Type} {first : EStateM ε σ α} {next : α → EStateM ε σ β}
    {start done : σ} {b : β} (passed : (first >>= next) start = .ok b done) :
    ∃ a middle, first start = .ok a middle ∧ next a middle = .ok b done := by
  simp only [bind, EStateM.bind] at passed
  cases outcome : first start with
  | ok a middle =>
      rw [outcome] at passed
      exact ⟨a, middle, rfl, passed⟩
  | error error middle =>
      rw [outcome] at passed
      cases passed

theorem EStateM.get_bind_apply {ε σ β : Type} (next : σ → EStateM ε σ β) (state : σ) :
    ((get : EStateM ε σ σ) >>= next) state = next state state := rfl

namespace BuildM

variable {α β : Type}

/-- An action from a context ends in a result and a context with `done`, or fails in a context with
`failed`. -/
def Ensures (action : BuildM α) (context : Context) (done : α → Context → Prop)
    (failed : Context → Prop) : Prop :=
  match action context with
  | .ok a after => done a after
  | .error _ after => failed after

section Steps

variable {context : Context} {done : α → Context → Prop} {failed : Context → Prop}

@[simp]
theorem ensures_pure (a : α) : Ensures (pure a) context done failed ↔ done a context := Iff.rfl

@[simp]
theorem ensures_throw (error : BuildError) :
    Ensures (throw error : BuildM α) context done failed ↔ failed context := Iff.rfl

@[simp]
theorem ensures_bind (action : BuildM β) (next : β → BuildM α) :
    Ensures (action >>= next) context done failed ↔
      Ensures action context (fun b middle => Ensures (next b) middle done failed) failed := by
  simp only [Ensures, bind, EStateM.bind]
  cases action context <;> rfl

@[simp]
theorem ensures_map (action : BuildM β) (f : β → α) :
    Ensures (f <$> action) context done failed ↔
      Ensures action context (fun b after => done (f b) after) failed := by
  simp only [Ensures, Functor.map, EStateM.map]
  cases action context <;> rfl

@[simp]
theorem ensures_get {done : Context → Context → Prop} :
    Ensures get context done failed ↔ done context context := Iff.rfl

@[simp]
theorem ensures_set {done : PUnit → Context → Prop} (new : Context) :
    Ensures (set new) context done failed ↔ done ⟨⟩ new := Iff.rfl

@[simp]
theorem ensures_modify {done : PUnit → Context → Prop} (change : Context → Context) :
    Ensures (modify change) context done failed ↔ done ⟨⟩ (change context) := Iff.rfl

@[simp]
theorem ensures_emit {done : Unit → Context → Prop} (event : Event) :
    Ensures (emit event) context done failed ↔ done () (context.emit event) := Iff.rfl

@[simp]
theorem ensures_savePoint {done : Unit → Context → Prop} (point : InsertionPoint) :
    Ensures (savePoint point) context done failed ↔ done () (context.savePoint point) := Iff.rfl

@[simp]
theorem ensures_bindNode {done : Unit → Context → Prop} (id : NodeId) (binding : Binding) :
    Ensures (bindNode id binding) context done failed ↔ done () (context.bind id binding) :=
  Iff.rfl

@[simp]
theorem ensures_freshId {done : NodeId → Context → Prop} :
    Ensures freshId context done failed ↔
      done context.nextId { context with nextId := context.nextId + 1 } := Iff.rfl

/-- A region is left whether its action fails or not. -/
theorem ensures_inRegion (action : BuildM α) :
    Ensures (inRegion action) context done failed ↔
      Ensures action context.enterRegion (fun a after => done a (after.leaveRegion context.mark))
        (fun after => failed (after.leaveRegion context.mark)) := by
  simp only [Ensures, inRegion]
  cases action context.enterRegion <;> rfl

end Steps

namespace Ensures

variable {action : BuildM α} {context : Context} {done done' : α → Context → Prop}
  {failed failed' : Context → Prop}

/-- What holds of every result and of every context after a failure may be weakened. -/
theorem mono (ensures : Ensures action context done failed)
    (results : ∀ a after, done a after → done' a after)
    (failures : ∀ after, failed after → failed' after) :
    Ensures action context done' failed' := by
  simp only [Ensures] at ensures ⊢
  cases outcome : action context with
  | ok a after =>
      rw [outcome] at ensures
      exact results a after ensures
  | error error after =>
      rw [outcome] at ensures
      exact failures after ensures

theorem and (first : Ensures action context done failed)
    (second : Ensures action context done' failed') :
    Ensures action context (fun a after => done a after ∧ done' a after)
      (fun after => failed after ∧ failed' after) := by
  simp only [Ensures] at first second ⊢
  cases outcome : action context with
  | ok a after =>
      rw [outcome] at first second
      exact ⟨first, second⟩
  | error error after =>
      rw [outcome] at first second
      exact ⟨first, second⟩

/-- The outcome with a result. -/
theorem of_ok (ensures : Ensures action context done failed) {a : α} {after : Context}
    (outcome : action context = .ok a after) : done a after := by
  rw [Ensures, outcome] at ensures
  exact ensures

/-- The outcome with a failure. -/
theorem of_error (ensures : Ensures action context done failed) {error : BuildError}
    {after : Context} (outcome : action context = .error error after) : failed after := by
  rw [Ensures, outcome] at ensures
  exact ensures

end Ensures

/-- A check that changes nothing passes on its result. -/
theorem ensures_liftExcept {checked : Except BuildError α} {context : Context}
    {done : α → Context → Prop} {failed : Context → Prop}
    (passed : ∀ a, checked = .ok a → done a context) (refused : failed context) :
    Ensures (liftExcept checked) context done failed := by
  cases checked with
  | ok a => exact passed a rfl
  | error error => exact refused

theorem ensures_valueType {expr : Expr} {context : Context} {done : DType → Context → Prop}
    {failed : Context → Prop} (typed : ∀ dtype, expr.dtype? = some dtype → done dtype context)
    (refused : failed context) : Ensures (valueType expr) context done failed := by
  rw [valueType]
  cases type : expr.dtype? with
  | some dtype => exact typed dtype type
  | none => exact refused

theorem ensures_checkType {dtype : DType} {context : Context} {done : Unit → Context → Prop}
    {failed : Context → Prop} (passed : done () context) (refused : failed context) :
    Ensures (checkType dtype) context done failed := by
  rw [checkType]
  cases dtype.rank with
  | ok rank => exact passed
  | error error => exact refused

/-! ## Relations that actions lead along -/

/-- An action ends in a context that `done` relates to the one before, or it fails in a context that
`failed` relates to the one before. -/
def Leads (done failed : Context → Context → Prop) (action : BuildM α) : Prop :=
  ∀ context, Ensures action context (fun _ after => done context after) (failed context)

/-- Relations that hold along a course of steps when they hold of each step: the second one of a
course whose last step fails. -/
structure Courses (done failed : Context → Context → Prop) : Prop where
  refl : ∀ context, done context context
  trans : ∀ {first second third}, done first second → done second third → done first third
  halt : ∀ context, failed context context
  late : ∀ {first second third}, done first second → failed second third → failed first third

section Courses

variable {done failed : Context → Context → Prop}

/-- What an action leads to from contexts of some sort. -/
theorem leads_of {holds : Context → Prop} {action : BuildM α}
    (ensures : ∀ {context : Context}, holds context →
      Ensures action context (fun _ after => done context after) (failed context)) :
    Leads (fun before after => holds before → done before after)
      (fun before after => holds before → failed before after) action := by
  intro context
  by_cases start : holds context
  · exact (ensures start).mono (fun _ _ done _ => done) fun _ failed _ => failed
  · simp only [Ensures]
    split <;> exact fun later => absurd later start

theorem Leads.map {action : BuildM β} (leads : Leads done failed action) (f : β → α) :
    Leads done failed (f <$> action) := by
  intro context
  rw [ensures_map]
  exact leads context

/-- Reading the context changes nothing. -/
theorem Leads.get_bind {next : Context → BuildM α}
    (leads : ∀ context, Leads done failed (next context)) : Leads done failed (get >>= next) := by
  intro context
  rw [ensures_bind, ensures_get]
  exact leads context context

namespace Courses

variable (courses : Courses done failed)
include courses

theorem bind {action : BuildM β} {next : β → BuildM α} (first : Leads done failed action)
    (second : ∀ b, Leads done failed (next b)) : Leads done failed (action >>= next) := by
  intro context
  rw [ensures_bind]
  refine (first context).mono (fun b middle step => ?_) (fun _ step => step)
  exact (second b middle).mono (fun _ _ later => courses.trans step later)
    (fun _ later => courses.late step later)

theorem pure (a : α) : Leads done failed (Pure.pure a : BuildM α) := courses.refl

theorem throw (error : BuildError) : Leads done failed (MonadExcept.throw error : BuildM α) :=
  courses.halt

/-- Nothing happens after a failure. -/
theorem throw_bind (error : BuildError) (next : β → BuildM α) :
    Leads done failed (MonadExcept.throw error >>= next) := courses.halt

theorem liftExcept (checked : Except BuildError α) :
    Leads done failed (BuildM.liftExcept checked) := fun context =>
  ensures_liftExcept (fun _ _ => courses.refl context) (courses.halt context)

theorem valueType (expr : Expr) : Leads done failed (BuildM.valueType expr) := fun context =>
  ensures_valueType (fun _ _ => courses.refl context) (courses.halt context)

theorem checkType (dtype : DType) : Leads done failed (BuildM.checkType dtype) := fun context =>
  ensures_checkType (courses.refl context) (courses.halt context)

theorem mapM {step : β → BuildM α} (leads : ∀ b, Leads done failed (step b)) (items : List β) :
    Leads done failed (items.mapM step) := by
  induction items with
  | nil => exact courses.pure []
  | cons item rest ih =>
      rw [List.mapM_cons]
      exact courses.bind (leads item) fun _ => courses.bind ih fun _ => courses.pure _

end Courses

end Courses

/-! ## Relations that actions keep -/

/-- A relation between contexts that holds along a chain of steps when it holds of each step. -/
structure Chains (relates : Context → Context → Prop) : Prop where
  refl : ∀ context, relates context context
  trans : ∀ {first second third}, relates first second → relates second third →
    relates first third

/-- The context after an action is related to the one before, whether the action fails or not. -/
def Keeps (relates : Context → Context → Prop) (action : BuildM α) : Prop :=
  ∀ context, Ensures action context (fun _ after => relates context after) (relates context)

namespace Keeps

variable {relates weaker : Context → Context → Prop}

theorem mono {action : BuildM α} (keeps : Keeps relates action)
    (implied : ∀ before after, relates before after → weaker before after) :
    Keeps weaker action :=
  fun context => (keeps context).mono (fun _ after => implied context after) (implied context)

theorem map {action : BuildM β} (keeps : Keeps relates action) (f : β → α) :
    Keeps relates (f <$> action) := Leads.map keeps f

/-- Reading the context relates it to itself. -/
theorem get_bind {next : Context → BuildM α} (keeps : ∀ context, Keeps relates (next context)) :
    Keeps relates (get >>= next) := Leads.get_bind keeps

end Keeps

namespace Chains

variable {relates : Context → Context → Prop} (chains : Chains relates)
include chains

/-- A chain is a course whether its last step fails or not. -/
theorem courses : Courses relates relates := ⟨chains.refl, chains.trans, chains.refl, chains.trans⟩

theorem bind {action : BuildM β} {next : β → BuildM α} (first : Keeps relates action)
    (second : ∀ b, Keeps relates (next b)) : Keeps relates (action >>= next) :=
  chains.courses.bind first second

theorem pure (a : α) : Keeps relates (Pure.pure a : BuildM α) := chains.refl

theorem throw (error : BuildError) : Keeps relates (MonadExcept.throw error : BuildM α) :=
  chains.refl

/-- Nothing happens after a failure. -/
theorem throw_bind (error : BuildError) (next : β → BuildM α) :
    Keeps relates (MonadExcept.throw error >>= next) := chains.refl

theorem liftExcept (checked : Except BuildError α) :
    Keeps relates (BuildM.liftExcept checked) := chains.courses.liftExcept checked

theorem valueType (expr : Expr) : Keeps relates (BuildM.valueType expr) :=
  chains.courses.valueType expr

theorem checkType (dtype : DType) : Keeps relates (BuildM.checkType dtype) :=
  chains.courses.checkType dtype

theorem mapM {step : β → BuildM α} (keeps : ∀ b, Keeps relates (step b)) (items : List β) :
    Keeps relates (items.mapM step) := chains.courses.mapM keeps items

end Chains

end BuildM

end AffineKernel
