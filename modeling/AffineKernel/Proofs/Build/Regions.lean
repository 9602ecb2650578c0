import AffineKernel.Build.Control
import AffineKernel.Proofs.Build.Constructors
import AffineKernel.Proofs.Build.Dominance

/-!
# Dominance across constructors and regions

Everything a program can ask of a context keeps it lawful. For the node
constructors and for storage this is one relation, `Context.Preserves`. What
begins a function, loop or conditional creates an operation with a region; the
new block can be filled, that is, everything bound outside is visible in it and
the context in it is lawful (`Context.Opens`).
-/

set_option autoImplicit false

namespace AffineKernel

namespace Context

variable {before middle after origin context : Context} {value : Value} {block : BlockId}

/-- A step from a lawful context emits operations and ends in a lawful context. -/
def Preserves (before after : Context) : Prop := before.Lawful → Sustains before after

theorem Preserves.chains : BuildM.Chains Preserves where
  refl _ lawful := lawful.sustains
  trans first second lawful := (first lawful).trans (second (first lawful).lawful)

theorem Lawful.log (lawful : context.Lawful) (events : Array Event) :
    Sustains context { context with log := events } where
  emits := { Emits.refl context with }
  lawful := { lawful with bindings := lawful.bindings }

theorem Lawful.freshId (lawful : context.Lawful) :
    Sustains context { context with nextId := context.nextId + 1 } where
  emits := { Emits.refl context with nextId_le := Nat.le_succ _ }
  lawful := { lawful with bindings := lawful.bindings }

theorem Lawful.setStorage (lawful : context.Lawful) (tensor : Tensor)
    (buffer : context.module.IsBuffer value) :
    Sustains context (context.setStorage tensor value) where
  emits := { Emits.refl context with }
  lawful :=
    { lawful with
      storage := by
        intro id held found
        simp only [Context.setStorage, Table.find?_insert] at found
        split at found
        · exact Option.some.inj found ▸ buffer
        · exact lawful.storage id held found
      bindings := lawful.bindings }

/-- A new block that can be filled is entered. -/
theorem Lawful.opens (lawful : before.Lawful) (sustains : Sustains before after)
    (new : block = ⟨before.module.blocks.size⟩) (same : after.bindings = before.bindings)
    (fillable : Fillable block before after) : Opens block before after where
  sustains := sustains
  new := Nat.le_of_eq (congrArg BlockId.index new).symm
  listed := fillable.listed
  entered := lawful.enter sustains.lawful.enterRegion.toPlaced same { fillable with }

theorem Opens.since (opens : Opens block before after) (sustains : Sustains origin before) :
    Opens block origin after where
  sustains := sustains.trans opens.sustains
  new := Nat.le_trans sustains.emits.blocks_le opens.new
  listed := opens.listed
  entered := opens.entered

/-- The arguments of an open block are visible in it. -/
theorem Opens.sees_arg (opens : Opens block before after) (position : Nat) :
    (after.enterRegion.savePoint (.atEnd block)).Sees (.arg block position) := by
  obtain ⟨found, listed⟩ := opens.listed
  exact sees_savePoint ⟨found, listed, .inl ⟨position, rfl⟩⟩

end Context

namespace BuildM

open Context

variable {context : Context}

/-! ## Constructors -/

theorem keeps_preserves {α : Type} {action : BuildM α}
    (lawful : ∀ {context : Context}, context.Lawful →
      Ensures action context (fun _ after => Sustains context after) (Sustains context)) :
    Keeps Preserves action := leads_of lawful

theorem build_preserves (expr : Expr) : Keeps Preserves (build expr) :=
  keeps_preserves fun lawful =>
    (build_lawful expr lawful).mono (fun _ _ done => done.1) fun _ failed => failed

theorem buildValue_lawful (expr : Expr) (lawful : context.Lawful) :
    Ensures (buildValue expr) context
      (fun value after => Sustains context after ∧ after.Sees value) (Sustains context) := by
  rw [buildValue, ensures_bind]
  refine (build_lawful expr lawful).mono ?_ fun _ failed => failed
  rintro binding after ⟨sustains, sees⟩
  refine (needValue_lawful sees).mono ?_ fun _ same => same ▸ sustains
  rintro value after ⟨rfl, seesValue⟩
  exact ⟨sustains, seesValue⟩

/-- Allocated storage is a buffer. -/
theorem allocTensor_preserves (tensor : Tensor) : Keeps Preserves (allocTensor tensor) := by
  refine Preserves.chains.bind (Preserves.chains.checkType _) fun _ => ?_
  refine keeps_preserves fun lawful => ?_
  simp only [ensures_bind, ensures_modify, ensures_pure]
  refine (createValue_lawful lawful (by simp)).mono ?_ fun _ failed => failed
  rintro value after ⟨sustains, -, typed⟩
  exact sustains.trans (sustains.lawful.setStorage tensor ⟨_, _, typed⟩)

/-- Constructors keep contexts lawful, and so does all building. -/
theorem preserves_firm : Firm Preserves where
  toChains := Preserves.chains
  log _ events lawful := lawful.log events
  freshId _ lawful := lawful.freshId
  build := build_preserves
  allocTensor := allocTensor_preserves

/-! ## Functions, loops and conditionals -/

/-- Creating an operation with a region. -/
theorem createRegion_opens {kind : OpKind} {operands : List Value}
    {attributes : List (String × Attribute)} {args : List ValueType} (lawful : context.Lawful)
    (usable : ∀ value ∈ operands, context.Usable value) :
    Ensures (createRegion kind operands attributes args) context
      (fun made after => Opens made.2 context after) (Sustains context) := by
  refine ((createRegion_lawful lawful usable).and (createRegion_emits _ _ _ _ context)).mono ?_
    fun _ failed => failed.1
  rintro made after ⟨⟨sustains, same, fillable, -⟩, -, new⟩
  exact lawful.opens sustains new same fillable

/-- The arguments of a function are buffers. -/
theorem bindArgs_lawful {block : BlockId} : ∀ (tensors : List Tensor) (position : Nat)
    {context : Context}, context.Lawful →
    (∀ place, place < tensors.length →
      context.module.IsBuffer (.arg block (position + place))) →
    Ensures (bindArgs block position tensors) context
      (fun _ after => Sustains context after ∧ after.module = context.module ∧
        after.bindings = context.bindings)
      (Sustains context)
  | [], position, context, lawful, _ => ⟨lawful.sustains, rfl, rfl⟩
  | tensor :: rest, position, context, lawful, buffers => by
      have stored := lawful.setStorage tensor (buffers 0 (by simp))
      rw [bindArgs, ensures_bind, ensures_modify]
      refine (bindArgs_lawful rest (position + 1) stored.lawful fun place small => ?_).mono ?_
        fun _ failed => stored.trans failed
      · have buffer := buffers (place + 1) (by simpa using small)
        rwa [Nat.add_comm place 1, ← Nat.add_assoc] at buffer
      · rintro - after ⟨sustains, module, bindings⟩
        exact ⟨stored.trans sustains, module, bindings⟩

theorem beginFunction_opens (name : String) (args : List Tensor) (lawful : context.Lawful) :
    Ensures (beginFunction name args) context
      (fun made after => Opens made.2 context after) (Sustains context) := by
  simp only [beginFunction, ensures_bind, ensures_emit, ensures_pure]
  refine ((createRegion_lawful lawful (by simp)).and
    (createRegion_emits _ _ _ _ context)).mono ?_ fun _ failed => failed.1
  rintro made opened ⟨⟨sustains, same, fillable, found, listed, typed⟩, -, new⟩
  refine (bindArgs_lawful args 0 sustains.lawful fun place small => ?_).mono ?_
    fun _ failed => sustains.trans failed
  · refine ⟨args[place].shape, args[place].dtype, ?_⟩
    simp [Module.valueType?, listed, typed, small]
  · rintro - after ⟨stored, module, bindings⟩
    have stack : after.stack = opened.stack := stored.emits.stack
    have through := (sustains.trans stored).trans (stored.lawful.emit (.openFunction name args.length))
    exact lawful.opens through new (bindings.trans same)
      { listed := module ▸ fillable.listed
        opened := module ▸ fillable.opened
        newest := stack ▸ fillable.newest
        inherits := fun value sees => module ▸ fillable.inherits value sees }

theorem endFunction_preserves (result : Option Expr) : Keeps Preserves (endFunction result) := by
  cases result with
  | none =>
      refine keeps_preserves fun lawful => ?_
      simp only [endFunction, ensures_bind, ensures_pure]
      exact (create_lawful lawful (by simp)).mono (fun _ _ done => done.1) fun _ failed => failed
  | some expr =>
      refine keeps_preserves fun lawful => ?_
      simp only [endFunction, ensures_bind, ensures_pure]
      refine (buildValue_lawful expr lawful).mono ?_ fun _ failed => failed
      rintro value after ⟨sustains, sees⟩
      exact (create_lawful sustains.lawful (by simp [Usable, sees])).mono
        (fun _ _ done => sustains.trans done.1) fun _ failed => sustains.trans failed

/-- A bound that a loop can be created with. -/
theorem beginLoop_opens (lower upper : Bound) (spec : LoopSpec) (lawful : context.Lawful) :
    Ensures (beginLoop lower upper spec) context
      (fun made after => Opens made.2.body context after) (Sustains context) := by
  have counted := lawful.freshId
  simp only [beginLoop, ensures_bind, ensures_freshId, ensures_pure]
  refine (buildBound_lawful lower counted.lawful).mono ?_ fun _ failed => counted.trans failed
  rintro low first ⟨step, seesLow⟩
  have sustains := counted.trans step
  refine (buildBound_lawful upper sustains.lawful).mono ?_ fun _ failed => sustains.trans failed
  rintro high second ⟨step, seesHigh⟩
  have seesLow := fun value same => step.sees sustains.lawful (seesLow value same)
  have sustains := sustains.trans step
  refine ((emitLoop_lawful sustains.lawful seesLow seesHigh).and
    (emitLoop_emits low high spec second)).mono ?_ fun _ failed => sustains.trans failed.1
  rintro header after ⟨⟨looped, same, fillable⟩, -, new⟩
  exact (sustains.lawful.opens looped new same fillable).since sustains

theorem beginConditional_opens (condition : Expr) (lawful : context.Lawful) :
    Ensures (beginConditional condition) context
      (fun made after => Opens made.2 context after) (Sustains context) := by
  rw [beginConditional, ensures_bind]
  refine ensures_valueType (fun dtype _ => ?_) lawful.sustains
  dsimp only
  split
  · exact lawful.sustains
  rw [ensures_bind]
  refine (buildValue_lawful condition lawful).mono ?_ fun _ failed => failed
  rintro value first ⟨sustains, sees⟩
  rw [ensures_bind]
  refine (emitCast_lawful sustains.lawful sees).mono ?_ fun _ failed => sustains.trans failed
  rintro index second ⟨step, seesIndex⟩
  have sustains := sustains.trans step
  exact (createRegion_opens sustains.lawful (by simp [Usable, seesIndex])).mono
    (fun _ _ opens => opens.since sustains) fun _ failed => sustains.trans failed

theorem endBody_preserves : Keeps Preserves endBody :=
  keeps_preserves fun lawful => by
    simp only [endBody, emitYield, ensures_bind, ensures_pure]
    exact (create_lawful lawful (by simp)).mono (fun _ _ done => done.1) fun _ failed => failed

end BuildM

end AffineKernel
