import AffineKernel.Proofs.Script.Pool

/-!
# Construction in the deferred mode

In the deferred mode a constructor takes an identity and reports, and that is
all: module, insertion points, bindings and storage stay as they are
(`Context.Rests`). So do statements that only construct.

For a function statement that ends well, `Session.runFunction_ok` names the
steps on its way: the function is begun, its body runs, and its end is built.
-/

set_option autoImplicit false

namespace AffineKernel

namespace Context

/-- Nothing has changed but identities and events. -/
structure Rests (before after : Context) : Prop where
  module : after.module = before.module
  mode : after.mode = before.mode
  stack : after.stack = before.stack
  bindings : after.bindings = before.bindings
  regionNodes : after.regionNodes = before.regionNodes
  regions : after.regions = before.regions
  storage : after.storage = before.storage
  nextId_le : before.nextId ≤ after.nextId

theorem Rests.emits {before after : Context} (rests : Rests before after) :
    Emits [] before after where
  mode := rests.mode
  regions := rests.regions
  stack := rests.stack
  fresh := by simp
  nodes := by
    refine ⟨[], rests.regionNodes, fun _ id binding found => .inr ?_⟩
    rwa [binding?, rests.bindings] at found
  nextId_le := rests.nextId_le
  blocks_le := Nat.le_of_eq (by rw [rests.module])
  grows := fun _ => by
    rw [rests.module]
    exact .refl _ _
  fills := by
    rw [rests.module]
    exact .refl _ _

/-- In the deferred mode, nothing has changed but identities and events. -/
def Defers (before after : Context) : Prop := before.mode = .deferred → Rests before after

theorem Rests.refl (context : Context) : Rests context context :=
  ⟨rfl, rfl, rfl, rfl, rfl, rfl, rfl, Nat.le_refl _⟩

theorem Rests.trans {first second third : Context} (start : Rests first second)
    (end_ : Rests second third) : Rests first third where
  module := end_.module.trans start.module
  mode := end_.mode.trans start.mode
  stack := end_.stack.trans start.stack
  bindings := end_.bindings.trans start.bindings
  regionNodes := end_.regionNodes.trans start.regionNodes
  regions := end_.regions.trans start.regions
  storage := end_.storage.trans start.storage
  nextId_le := Nat.le_trans start.nextId_le end_.nextId_le

theorem Defers.chains : BuildM.Chains Defers where
  refl context _ := .refl context
  trans first second deferred :=
    (first deferred).trans (second ((first deferred).mode.trans deferred))

end Context

open Context

theorem BuildM.defers_steady : BuildM.Steady Defers where
  toChains := Defers.chains
  log _ _ _ := { Rests.refl _ with }
  freshId _ _ := { Rests.refl _ with nextId_le := Nat.le_succ _ }
  finish node := by
    intro context
    by_cases deferred : context.mode = .deferred
    · have waits : context.mode.isInPlace = false := by rw [deferred]; rfl
      simp only [finish, ensures_bind, ensures_freshId, ensures_get, waits, Bool.false_and,
        Bool.false_eq_true, ↓reduceIte]
      exact fun _ => { Rests.refl context with nextId_le := Nat.le_succ _ }
    · simp only [Ensures]
      split <;> exact fun later => absurd later deferred

/-- Whether a statement only constructs or reports. -/
def Statement.constructs : Statement → Bool
  | .command _ asked => !asked.builds && !asked.steers
  | _ => false

namespace Session

variable {session : Session}

theorem runStatement_defers {statement : Statement} (constructs : statement.constructs = true) :
    Keeps Defers (runStatement statement) := by
  cases statement with
  | command label command =>
      obtain ⟨passive, still⟩ : command.builds = false ∧ command.steers = false := by
        simpa [Statement.constructs] using constructs
      rw [runStatement]
      exact keeps_bind Defers.chains
        (runCommand_constructing BuildM.defers_steady label.name passive still)
        (keeps_record Defers.chains)
  | _ => cases constructs

/-- A script that only constructs leaves the module and the insertion points alone. -/
theorem runAll_defers {statements : List Statement}
    (constructs : statements.all Statement.constructs = true) :
    Keeps Defers (runAll statements) := by
  induction statements with
  | nil => exact keeps_pure Defers.chains []
  | cons statement rest ih =>
      rw [List.all_cons, Bool.and_eq_true] at constructs
      rw [runAll]
      refine keeps_bind Defers.chains (runStatement_defers constructs.1) fun _ => ?_
      exact keeps_bind Defers.chains (ih constructs.2) fun _ => keeps_pure Defers.chains _

/-- A body that only constructs leaves the module and the insertion points alone. -/
theorem runBody_defers {statements : List Statement}
    (constructs : statements.all Statement.constructs = true) :
    Keeps Defers (runBody statements) := by
  induction statements with
  | nil => exact keeps_pure Defers.chains _
  | cons statement rest ih =>
      rw [List.all_cons, Bool.and_eq_true] at constructs
      rw [runBody]
      refine keeps_bind Defers.chains (runStatement_defers constructs.1) fun record => ?_
      split
      · exact keeps_pure Defers.chains _
      · exact keeps_bind Defers.chains (ih constructs.2) fun _ => keeps_pure Defers.chains _

end Session

end AffineKernel
