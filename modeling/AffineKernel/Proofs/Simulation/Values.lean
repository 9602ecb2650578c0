import AffineKernel.Proofs.Simulation.Functions

/-!
# Functions that return an expression

Materialization preserves meaning: a function that a script constructs in the
deferred mode, and which returns an expression without reductions, stores and
calls, returns the value of that expression when it is called; it fails when
the expression has no value, and for the same reason.
-/

set_option autoImplicit false

namespace AffineKernel

/-- The nodes of a sound pool form a graph. -/
theorem Pool.Sound.graph {pool : Pool} {next : NodeId} (sound : pool.Sound next) :
    Graph pool.expr where
  operands := sound.operands
  unique := sound.unique
  formed := sound.formed

/-- A tensor of a sound pool that has the identity of another one is that one. -/
theorem Pool.Sound.tensor_eq {pool : Pool} {next : NodeId} (sound : pool.Sound next)
    {tensors : List Tensor} (listed : ∀ tensor ∈ tensors, pool.tensor tensor) {expr : Expr}
    {tensor : Tensor} (member : pool.expr expr) (used : expr.tensor? = some tensor) :
    ∀ arg ∈ tensors, arg.id = tensor.id → arg = tensor :=
  fun arg given => sound.tensorUnique (listed arg given) (sound.tensors member tensor used)

namespace BuildM

variable {nodes : Expr → Prop} {context : Context}

/-- The end of a function that returns an expression: the expression is built, and returned. -/
theorem endFunction_returns (graph : Graph nodes) {expr : Expr} (flat : expr.isFlat = true)
    (member : nodes expr) (ends : context.AtEnds) :
    Ensures (endFunction (some expr)) context
      (fun _ after => ∃ value middle id, middle.binding? expr.id = some (.value value) ∧
        Computes nodes context middle (fun setting => setting.value expr) (fun _ _ => True) ∧
        Creates { kind := .ret, operands := [value] } id middle after)
      (fun _ => True) := by
  simp only [endFunction, buildValue, ensures_bind, ensures_pure]
  refine (build_built graph expr flat member ends).mono (fun binding middle built => ?_)
    fun _ _ => trivial
  cases binding with
  | op id => trivial
  | value value =>
      obtain ⟨bound, computes⟩ := built value rfl
      refine (create_creates _ middle).mono (fun id after creates => ?_) fun _ _ => trivial
      exact ⟨value, middle, id, bound, computes, creates⟩

end BuildM

/-- A return of a scalar ends a run with it. -/
theorem Machine.advance_ret {module : Module} {run : RunBlock} {id : OpId} {op : Operation}
    {value : Value} {scalar : Scalar} {frame : Frame} {machine : Machine}
    (carries : module.Carries id op { kind := .ret, operands := [value] })
    (found : frame.find? value = some (.scalar scalar)) :
    advance (runOp module run) [id] frame machine = .ok (.returned [.scalar scalar]) machine := by
  rw [advance_singleton]
  refine ret_apply carries.found carries.kind ?_
  rw [carries.operands]
  simp [found]

/-- A function whose body is the end alone returns the value of its expression. -/
theorem Context.Hosts.returns_value {name : String} {tensors : List Tensor}
    {context after : Context} {pool : Pool} {expr : Expr} {buffers : List Buffer}
    (hosts : context.Hosts name tensors) (sound : pool.Sound context.nextId)
    (listed : ∀ tensor ∈ tensors, pool.tensor tensor) (distinct : (tensors.map Tensor.id).Nodup)
    (member : pool.expr expr) (flat : expr.isFlat = true)
    (ended : BuildM.endFunction (some expr) context = .ok () after)
    (accepted : Tensor.AcceptAll tensors buffers) (depth : Nat) (machine : Machine) :
    (Machine.call after.module (depth + 1) name buffers machine).1.Answers buffers
      (expr.value (fun _ => none) (.ofArgs tensors buffers) >>= fun scalar =>
        .ok ([scalar], buffers)) := by
  have ends := hosts.ends
  obtain ⟨value, middle, id, bound, computes, creates⟩ :=
    (BuildM.endFunction_returns sound.graph flat member ends).of_ok ended
  obtain ⟨ops, lists, performs⟩ := computes.runs
  obtain ⟨op, carries, -⟩ := creates.carries
  have body : after.module.block? ⟨1⟩ = some ⟨parameters tensors, ops ++ [id], some ⟨0⟩⟩ := by
    have built := lists ⟨1⟩ _ _ hosts.stack hosts.body
    exact creates.lists ⟨1⟩ _ _ (computes.emits.stack.trans hosts.stack) built
  have grown : middle.module.Extends after.module :=
    (creates.emits.grows (computes.emits.atEnds ends)).mono fun _ _ => trivial
  have grownAll : context.module.Extends after.module :=
    ((computes.emits.grows ends).mono fun _ _ => trivial).trans grown fun _ _ _ => trivial
  refine hosts.answers grownAll body accepted.count fun log => ?_
  have starts := hosts.represents distinct accepted (sound.tensor_eq listed) machine.heap
  rw [Machine.advance_append]
  refine (performs after.module _ _ _ ⟨_, log⟩ grown starts).bind ?_
  rintro scalar step last meaning ⟨next, rfl, heap, -, reached, -⟩
  obtain ⟨held, dtype, bears⟩ := reached.bound member bound
  obtain rfl : held = scalar := Except.ok.inj (bears.meaning.symm.trans meaning)
  rw [Step.andThen, Machine.advance_ret carries bears.found]
  refine .of_ok ⟨rfl, ?_⟩
  rw [heap]
  simpa using Machine.returned_append machine.heap #[] buffers

/-- **Materialization preserves meaning.** A function that was constructed in the deferred mode
over distinct tensors, and returns an expression without reductions, stores and calls, replies the
value of the expression to every call with buffers of its tensors; the call fails exactly if the
expression has no value, by a zero divisor, an access out of bounds or an overflow as in the
expression, and the buffers stay as they are. -/
theorem Session.function_returns_value {setup body : List Statement}
    (setupConstructs : setup.all Statement.constructs = true)
    (bodyConstructs : body.all Statement.constructs = true)
    {label : Label} {name result : String} {args : List String} {session final : Session}
    {record : Record} (started : (runAll setup (fresh .deferred)).2 = session)
    (ran : runStatement (.function label name args (some result) body) session = (record, final))
    (ended : record.failure = none) {tensors : List Tensor}
    (resolved : args.mapM session.vars.tensor = .ok tensors)
    (distinct : (tensors.map Tensor.id).Nodup) {expr : Expr}
    (returned : final.vars.expr result = .ok expr) (flat : expr.isFlat = true)
    {buffers : List Buffer} (accepted : Tensor.AcceptAll tensors buffers) (depth : Nat)
    (machine : Machine) :
    (Machine.call final.context.module (depth + 1) name buffers machine).1.Answers buffers
      (expr.value (fun _ => none) (.ofArgs tensors buffers) >>= fun scalar =>
        .ok ([scalar], buffers)) := by
  have rests : (fresh .deferred).context.Rests session.context := by
    rw [← started]
    exact runAll_defers setupConstructs (fresh .deferred) rfl
  have blank := (fresh_blank .deferred).rests rests
  have traced := (runAll_passes setup (fresh .deferred)).traced (fun _ _ _ => trivial)
    (fresh_traced .deferred)
  rw [started] at traced
  obtain ⟨pool, within, traced⟩ := traced.rebase
  obtain ⟨opened, done, last, runs, same⟩ := runs_of_ended ran ended resolved blank
  have holds : done.vars.expr result = .ok expr := by
    rw [same] at returned
    have kept := expr_of_assign returned
    exact attempt_vars runs.ended ▸ kept
  have hosts := runs.done_hosts bodyConstructs rests.mode
  obtain ⟨wider, le, doneWithin⟩ := (runs.traced resolved traced).within
  have module : final.context.module = last.context.module := by
    rw [same, assign_context]
    rfl
  have listed : ∀ tensor ∈ tensors, wider.tensor tensor := by
    intro tensor given
    exact le.tensor (within.holds.tensors resolved tensor given)
  have closed : BuildM.endFunction (some expr) done.context = .ok () last.context := by
    have ended := runs.ended
    rw [Option.bind_some, holds] at ended
    exact attempt_eq_ok ended
  rw [module]
  exact hosts.returns_value doneWithin.sound listed distinct (doneWithin.holds.expr holds) flat
    closed accepted depth machine

namespace Session

/-- The declaration of a tensor of two elements. -/
def pairSetup : List Statement :=
  [.command ⟨some "a", false⟩ (.placeholder "a" [2] .int32)]

/-- A function that returns the quotient of the elements of its tensor. -/
def ratio : Statement :=
  .function ⟨none, false⟩ "ratio" ["a"] (some "q")
    [.command ⟨some "x", false⟩ (.make (.load "a" [.const 0])),
      .command ⟨some "y", false⟩ (.make (.load "a" [.const 1])),
      .command ⟨some "q", false⟩ (.make (.binary .div (.var "x") (.var "y")))]

/-- The session before this function. -/
def ratioStart : Session := (runAll pairSetup (fresh .deferred)).2

/-- The session after this function. -/
def ratioEnd : Session := (runStatement ratio ratioStart).2

def ratioTensor : Tensor := ⟨0, "a", [2], .int32⟩

def ratioBuffer : Buffer := ⟨[2], .int32, #[.int 7, .int (-2)]⟩

theorem ratioBuffer_accepted : Tensor.AcceptAll [ratioTensor] [ratioBuffer] := by
  refine .singleton ⟨rfl, rfl, fun scalar inside => ?_⟩
  have cases : scalar = .int 7 ∨ scalar = .int (-2) := by simpa [ratioBuffer] using inside
  rcases cases with rfl | rfl <;> exact ⟨rfl, by decide⟩

/-- The quotient of the elements is what a call replies. -/
theorem ratio_returns_value : ∃ expr, ratioEnd.vars.expr "q" = .ok expr ∧
    (Machine.call ratioEnd.context.module 1 "ratio" [ratioBuffer] .fresh).1.Answers [ratioBuffer]
      (expr.value (fun _ => none) (.ofArgs [ratioTensor] [ratioBuffer]) >>= fun scalar =>
        .ok ([scalar], [ratioBuffer])) := by
  have flat : (ratioEnd.vars.expr "q").toOption.any Expr.isFlat = true := by decide +kernel
  have resolved : (["a"].mapM ratioStart.vars.tensor).toOption = some [ratioTensor] := by
    decide +kernel
  have ended : (runStatement ratio ratioStart).1.failure.isNone = true := by decide +kernel
  obtain ⟨expr, returned, isFlat⟩ := (Option.any_eq_true ..).mp flat
  have returned := Except.eq_ok_of_toOption returned
  have started : (runAll pairSetup (fresh .deferred)).2 = ratioStart := rfl
  have ran : runStatement ratio ratioStart = ((runStatement ratio ratioStart).1, ratioEnd) :=
    (Prod.eta _).symm
  have constructs : pairSetup.all Statement.constructs = true := by decide
  refine ⟨expr, returned, ?_⟩
  exact function_returns_value constructs (by decide) started ran
    (Option.isNone_iff_eq_none.mp ended) (Except.eq_ok_of_toOption resolved) (by decide) returned
    isFlat ratioBuffer_accepted 0 .fresh

end Session

end AffineKernel
