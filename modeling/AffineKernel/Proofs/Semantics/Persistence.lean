import AffineKernel.Proofs.Semantics.Activations
import Mathlib.Data.List.Induction

/-!
# Values that stay as they are

An operation binds its own results and nothing else. So a value keeps its datum
while operations are executed of which it is no result
(`Machine.advance_keeps`).
-/

set_option autoImplicit false

namespace AffineKernel

/-- Binding the results of an operation leaves the other values alone. -/
theorem Frame.find?_binding_of_ne {frame : Frame} {id : OpId} {bound : List Datum} {value : Value}
    (other : ∀ position, value ≠ .result id position) :
    (frame.binding id bound).find? value = frame.find? value := by
  induction bound using List.reverseRecOn with
  | nil => rfl
  | append_singleton bound datum ih =>
      rw [binding_append, find?_define_of_ne fun same => other bound.length same.symm, ih]

namespace Machine

variable {module : Module} {run : RunBlock} {frame entry : Frame} {machine after : Machine}
  {value : Value}

/-- An operation leaves the values alone that are not its results. -/
theorem runOp_keeps {id : OpId} (ran : runOp module run id frame machine = .ok (.next entry) after)
    (other : ∀ position, value ≠ .result id position) : entry.find? value = frame.find? value := by
  cases found : module.op? id with
  | none =>
      rw [runOp, found] at ran
      cases ran
  | some op =>
      obtain ⟨bound, rfl⟩ := runOp_binds found ran
      exact Frame.find?_binding_of_ne other

/-- Operations leave the values alone that are not results of one of them. -/
theorem advance_keeps {ids : List OpId}
    (ran : advance (runOp module run) ids frame machine = .ok (.next entry) after)
    (other : ∀ id ∈ ids, ∀ position, value ≠ .result id position) :
    entry.find? value = frame.find? value := by
  induction ids generalizing frame machine with
  | nil =>
      cases ran
      rfl
  | cons id rest ih =>
      rw [advance_cons] at ran
      obtain ⟨step, middle, first, later⟩ := bind_eq_ok.mp ran
      cases step with
      | returned values => cases later
      | next next =>
          have kept := ih later fun id member => other id (List.mem_cons_of_mem _ member)
          rw [kept, runOp_keeps first (other id List.mem_cons_self)]

/-- Operations that were executed one after the other. -/
theorem advance_append_eq_ok {first second : List OpId}
    (ran : advance (runOp module run) (first ++ second) frame machine = .ok (.next entry) after) :
    ∃ next middle, advance (runOp module run) first frame machine = .ok (.next next) middle ∧
      advance (runOp module run) second next middle = .ok (.next entry) after := by
  rw [advance_append] at ran
  obtain ⟨step, middle, early, late⟩ := bind_eq_ok.mp ran
  cases step with
  | returned values => cases late
  | next next => exact ⟨next, middle, early, late⟩

end Machine

end AffineKernel
