import AffineKernel.Proofs.Script.Origins

/-!
# Scripts emit well-typed modules

Whatever a script does, in either mode, with errors caught or not and with the
insertion point anywhere, every operation of its module obeys its signature
exactly, and every node that is bound to a value is bound to a scalar of its own
type (`Program.emits_well_typed`). That is so at every moment of the script.

Nodes are trees with identities, so the second part speaks of the graph that the
nodes of the script form: a sound pool that has all that the variables hold, and
in which every identity that is bound belongs to a node.
-/

set_option autoImplicit false

namespace AffineKernel

namespace Program

/-- Before the first step nothing was constructed. -/
theorem session_traced (program : Program) (began : Session → OpId → Prop) :
    (program.session .fresh).Traced .empty began where
  within := ⟨.empty, .refl _, Context.start_upholds _ _, fun _ _ found => by cases found⟩
  functions := by
    intro id op found
    simp [session, Session.start, Context.start, Context.savePoint, Context.emit, Module.op?,
      Workbench.fresh, Module.empty] at found

/-- **Scripts emit well-typed modules.** At every moment of a program that starts from an empty
module, every operation obeys its signature, and the nodes of the program form a graph in which
every node that is bound to a value has a type and is bound to a scalar of that type. -/
theorem emits_well_typed (program : Program) {moment : Session}
    (passes : Session.Passes program.body (program.session .fresh) moment) :
    (∀ (id : OpId) (op : Operation), moment.context.module.op? id = some op →
      op.ObeysExactly moment.context.module) ∧
    ∃ pool : Pool, pool.Sound moment.context.nextId ∧ pool.Holds moment.vars ∧
      ∀ (id : NodeId) (value : Value), moment.context.binding? id = some (.value value) →
        ∃ expr dtype, pool.expr expr ∧ expr.id = id ∧ expr.dtype? = some dtype ∧
          moment.context.module.valueType? value = some (.scalar dtype) := by
  have traced := passes.traced (fun _ _ _ => trivial) (program.session_traced fun _ _ => True)
  obtain ⟨pool, -, within⟩ := traced.within
  refine ⟨fun id op found => within.upholds.regular.obeys found, pool, within.sound, within.holds,
    fun id value bound => ?_⟩
  obtain ⟨expr, dtype, member, same, typed, yields⟩ := within.upholds.bound bound
  exact ⟨expr, dtype, member, same, typed, yields.typed⟩

/-- The declaration of a tensor of four small integers. -/
def declareFour : Statement :=
  .command ⟨some "t", false⟩ (.placeholder "t" [4] (.int 8))

/-- A function over this tensor. A loop adds a wider number to each element and stores the sum,
which is cast on the way there and back; a quotient of the store fails and is caught. -/
def shifted : Statement :=
  .function ⟨none, false⟩ "main" ["t"] (some "x")
    [.loop ⟨none, false⟩ (some "i") (.const 0) (.const 4) ⟨1, none, none, false⟩
        [.command ⟨some "x", false⟩ (.make (.load "t" [.var "i"])),
          .command ⟨some "y", false⟩ (.make (.binary .add (.var "x") (.int 100))),
          .command ⟨some "z", false⟩ (.make (.store (.var "y") "t" [.var "i"])),
          .command ⟨none, true⟩ (.make (.binary .div (.var "z") (.var "x")))],
      .command ⟨some "x", false⟩ (.make (.load "t" [.const 0]))]

/-- The program of this function, in the in-place mode. -/
def shiftedProgram : Program where
  mode := some .inPlace
  setting := none
  setup := []
  body := [declareFour, shifted]

/-- The module after the program. -/
def shiftedModule : Module :=
  (Session.runStatement shifted
    (Session.runStatement declareFour (shiftedProgram.session .fresh)).2).2.context.module

theorem shifted_well_typed :
    shiftedModule.count .conversionCast = 2 ∧ shiftedModule.count .store = 1 ∧
      shiftedModule.count .divSI = 0 ∧ shiftedModule.count .ret = 1 ∧
      ∀ (id : OpId) (op : Operation), shiftedModule.op? id = some op →
        op.ObeysExactly shiftedModule := by
  have counts : shiftedModule.count .conversionCast = 2 ∧ shiftedModule.count .store = 1 ∧
      shiftedModule.count .divSI = 0 ∧ shiftedModule.count .ret = 1 := by
    decide +kernel
  obtain ⟨casts, stores, quotients, returns⟩ := counts
  refine ⟨casts, stores, quotients, returns, ?_⟩
  exact (emits_well_typed shiftedProgram (.later (.later .here))).1

end Program

end AffineKernel
