import AffineKernel.Proofs.Script.Dominance
import AffineKernel.Proofs.Script.Typing
import AffineKernel.Proofs.Semantics.Definedness

/-!
# What functions use from outside

A function may use a scalar that is not defined in its body: nodes that were
bound when the function was begun stay bound inside of it, so whatever needs one
of them uses its value from outside. These are the only such scalars
(`Program.borrowed_was_held`). A called function starts from an empty frame, and
a scalar from outside is not defined there; apart from that, a run fails for want
of a scalar only after a call that returned none.
-/

set_option autoImplicit false

namespace AffineKernel

namespace Program

variable {program : Program} {moment : Session}

/-- A scalar that a function uses from outside was bound to a node when the function was begun. -/
theorem borrowed_was_held (unsteered : allUnsteered program.body = true)
    (passes : Session.Passes program.body (program.session .fresh) moment) {func : OpId}
    {function : Operation} (found : moment.context.module.op? func = some function)
    (kind : function.kind = .func) :
    ∃ start, Session.Begins program.body (program.session .fresh) start func ∧
      ∀ value dtype, moment.context.module.valueType? value = some (.scalar dtype) →
        moment.context.module.Borrows func value → start.context.Holds value := by
  have lawful := passes.lawful unsteered (Context.start_lawful _ _)
  have traced := passes.traced (fun _ _ begins => begins) (program.session_traced _)
  have chronological := lawful.chronological
  obtain ⟨start, begins, same, regions, pool, within⟩ := traced.functions found kind
  refine ⟨start, begins, fun value dtype scalar borrows => ?_⟩
  obtain ⟨outside, id, op, holds, there, used⟩ := borrows
  have inner : function.parent.index < start.context.module.blocks.size :=
    (chronological.region found _ (regions ▸ List.mem_singleton.mpr rfl)).1
  have after : start.context.module.ops.size < id.index := by
    have later := holds.after chronological
    rwa [same] at later
  rcases within.upholds.regular.uses there (Nat.le_of_lt after) value used with
    ⟨shape, element, buffer⟩ | ⟨_, yields⟩
  · rw [scalar] at buffer
    cases buffer
  · rcases yields.since with held | made
    · exact held
    · -- A scalar that was made since the function was begun is visible inside of it only.
      refine absurd (Module.Visible.inside chronological found
        (lawful.dominated.visible there used scalar) holds inner fun older => ?_) outside
      cases value with
      | result earlier position =>
          have recent : start.context.module.ops.size ≤ earlier.index := made
          have before : earlier.index < func.index := older
          rw [same] at before
          exact absurd recent (Nat.not_le_of_lt before)
      | arg block position => exact absurd made (Nat.not_le_of_lt older)

/-- **What functions use from outside.** At every moment of a program, each function of the module
was begun at a moment before, and a scalar that it uses from outside of its body is one that a node
was bound to at that moment. A call fails for want of a scalar only if a function uses the scalar
from outside, or if it is the result of a call to a function that can return none. -/
theorem functions_self_contained (program : Program) (unsteered : allUnsteered program.body = true)
    {moment : Session} (passes : Session.Passes program.body (program.session .fresh) moment) :
    (∀ (func : OpId) (function : Operation),
      moment.context.module.op? func = some function → function.kind = .func →
      ∃ start, Session.Begins program.body (program.session .fresh) start func ∧
        ∀ value dtype, moment.context.module.valueType? value = some (.scalar dtype) →
          moment.context.module.Borrows func value → start.context.Holds value) ∧
    ∀ (depth : Nat) (name : String) (args : List Buffer) (machine : Machine) (value : Value)
      (dtype : DType), moment.context.module.valueType? value = some (.scalar dtype) →
      (Machine.call moment.context.module depth name args machine).1.failure? =
        some (.undefinedValue value) →
      (∃ func function, moment.context.module.op? func = some function ∧ function.kind = .func ∧
        moment.context.module.Borrows func value) ∨
      ∃ id position, value = .result id position ∧ Machine.Unanswered moment.context.module id := by
  have lawful := passes.lawful unsteered (Context.start_lawful _ _)
  have traced := passes.traced (fun _ _ _ => trivial) (program.session_traced fun _ _ => True)
  obtain ⟨pool, -, within⟩ := traced.within
  refine ⟨fun func function found kind => borrowed_was_held unsteered passes found kind, ?_⟩
  intro depth name args machine value dtype scalar failed
  exact Machine.call_undefined lawful.chronological lawful.dominated
    (fun found => within.upholds.regular.obeys found) scalar failed

/-- A constant that is built outside of any function, and a function that returns it. -/
def lentConstant : Program where
  mode := some .deferred
  setting := none
  setup := []
  body :=
    [.command ⟨some "c", false⟩ (.make (.constant (.int 7) .int32)),
      .command ⟨none, false⟩ (.build "c"),
      .function ⟨none, false⟩ "f" [] (some "c") []]

/-- The session after the program. -/
def lentConstantEnd : Session :=
  (Session.runBody lentConstant.body (lentConstant.session .fresh)).2

theorem lentConstant_passes :
    Session.Passes lentConstant.body (lentConstant.session .fresh) lentConstantEnd :=
  .later (.later (.later .here))

/-- The return stands in the body of the function, and takes the constant. -/
theorem lentConstant_used :
    lentConstantEnd.context.module.valueType? (.result ⟨0⟩ 0) = some (.scalar .int32) ∧
      (lentConstantEnd.context.module.op? ⟨1⟩).any
        (fun op => op.kind = .func ∧ ⟨1⟩ ∈ op.regions) = true ∧
      (lentConstantEnd.context.module.op? ⟨2⟩).any
        (fun op => op.parent = ⟨1⟩ ∧ .result ⟨0⟩ 0 ∈ op.operands) = true ∧
      (Machine.call lentConstantEnd.context.module 1 "f" [] .fresh).1.failure? =
        some (.undefinedValue (.result ⟨0⟩ 0)) := by
  decide +kernel

theorem lentConstant_borrows : lentConstantEnd.context.module.Borrows ⟨1⟩ (.result ⟨0⟩ 0) := by
  have lawful := lentConstant_passes.lawful (by decide) (Context.start_lawful _ _)
  obtain ⟨-, begun, ended, -⟩ := lentConstant_used
  refine ⟨fun inside => ?_, ?_⟩
  · exact absurd (Module.Holds.after lawful.chronological inside) (by decide)
  · obtain ⟨function, there, owns⟩ := (Option.any_eq_true ..).mp begun
    obtain ⟨op, found, good⟩ := (Option.any_eq_true ..).mp ended
    obtain ⟨parent, used⟩ := of_decide_eq_true good
    refine ⟨⟨2⟩, op, ⟨op, found, ?_⟩, found, used⟩
    rw [parent]
    exact .region there (of_decide_eq_true owns).2

/-- Functions are not self-contained. The constant is bound for good, since it is built outside of
any region; the function returns it from outside of its body, and a call to it fails. -/
theorem lentConstant_not_inside :
    allUnsteered lentConstant.body = true ∧
      Session.Passes lentConstant.body (lentConstant.session .fresh) lentConstantEnd ∧
      lentConstantEnd.context.module.valueType? (.result ⟨0⟩ 0) = some (.scalar .int32) ∧
      lentConstantEnd.context.module.Borrows ⟨1⟩ (.result ⟨0⟩ 0) ∧
      (Machine.call lentConstantEnd.context.module 1 "f" [] .fresh).1.failure? =
        some (.undefinedValue (.result ⟨0⟩ 0)) := by
  obtain ⟨scalar, -, -, fails⟩ := lentConstant_used
  exact ⟨by decide, lentConstant_passes, scalar, lentConstant_borrows, fails⟩

/-- What the function uses from outside was bound when it was begun, and that is why the call
fails. -/
theorem lentConstant_held :
    (∃ start, Session.Begins lentConstant.body (lentConstant.session .fresh) start ⟨1⟩ ∧
      start.context.Holds (.result ⟨0⟩ 0)) ∧
    ((∃ func function, lentConstantEnd.context.module.op? func = some function ∧
        function.kind = .func ∧ lentConstantEnd.context.module.Borrows func (.result ⟨0⟩ 0)) ∨
      ∃ id position, Value.result ⟨0⟩ 0 = .result id position ∧
        Machine.Unanswered lentConstantEnd.context.module id) := by
  have self := functions_self_contained lentConstant (by decide) lentConstant_passes
  obtain ⟨scalar, begun, -, fails⟩ := lentConstant_used
  obtain ⟨function, there, owns⟩ := (Option.any_eq_true ..).mp begun
  refine ⟨?_, self.2 1 "f" [] .fresh _ .int32 scalar fails⟩
  obtain ⟨start, begins, held⟩ := self.1 ⟨1⟩ function there (of_decide_eq_true owns).1
  exact ⟨start, begins, held _ .int32 scalar lentConstant_borrows⟩

end Program

end AffineKernel
