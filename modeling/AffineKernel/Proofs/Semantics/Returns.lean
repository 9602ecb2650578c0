import AffineKernel.Proofs.IR.Ancestry
import AffineKernel.Proofs.Semantics.Scopes

/-!
# A return ends its function

A return that is executed ends the blocks around it one after the other: the block
that lists it, the conditional that entered that block, the block that lists the
conditional, and so on up to the body of the function (`Machine.returns_of_continues`).
So the function gives the values of the operands of the return, the machine is
left as it was there, and whatever the run gets to, it gets to before
(`Machine.return_ends_function`).

A loop does not pass the values on. If there is one between the function and the
return, then the run goes on with the next iteration (`Machine.early_goes_on`).

In time, the points of a run are ordered by the way they are reached
(`Machine.Before`): a point stands on the way to another one, or it belongs to the
execution of an operation that has ended on the way.
-/

set_option autoImplicit false

namespace AffineKernel

/-- The block of a point ends with the return of values. -/
def Point.Returns (module : Module) (point : Point) (values : List Datum) (after : Machine) :
    Prop :=
  Machine.runOps (Machine.runOp module (Machine.runBlock module point.fuel))
    point.inner.rest point.frame point.machine = .ok (some values) after

namespace Machine

/-! ## The run of a function -/

/-- A function is entered. -/
def Starts (module : Module) (depth : Nat) (func : OpId) (name : String) (args : List Datum)
    (machine : Machine) (entry : Point) : Prop :=
  ∃ body block fuel, module.region? func 0 = some body ∧ module.block? body = some block ∧
    args.length = block.args.length ∧ depth = fuel + 1 ∧
    entry = .entry func body block.ops args
      { machine with log := machine.log.push (.interpret name args.length) } fuel

/-- The operation under execution ends, and its block goes on. -/
def Completes (module : Module) (point later : Point) : Prop :=
  ∃ id rest bound after, point.inner.rest = id :: rest ∧
    runOp module (runBlock module point.fuel) id point.frame point.machine =
      .ok (.next (point.frame.binding id bound)) after ∧
    later = point.record id bound rest after

/-- The operation under execution enters a block, in which nothing has ended yet. -/
def Enters (module : Module) (point later : Point) : Prop :=
  Proceeds module point later ∧ later.inner.done = []

/-- The run of a function gets from a point to another one: an operation ends, or a block is entered
below the executions under way. The functions that are called have runs of their own. -/
def Continues (module : Module) (point later : Point) : Prop :=
  Completes module point later ∨ Enters module point later ∧ later.outer = point.trail

/-- From the entry on, a point comes before another one or is that one: it is on the way there, or
inside of the execution of an operation that has ended on the way. -/
def Before (module : Module) (entry point last : Point) : Prop :=
  Relation.ReflTransGen (Continues module) entry point ∧
      Relation.ReflTransGen (Continues module) point last ∨
    ∃ way next inner, Relation.ReflTransGen (Continues module) entry way ∧
      Completes module way next ∧ Relation.ReflTransGen (Continues module) next last ∧
      Enters module way inner ∧ Relation.ReflTransGen (Proceeds module) inner point

section Steps

variable {module : Module} {point later last entry : Point}

theorem Proceeds.completes_or_enters (proceeds : Proceeds module point later) :
    Completes module point later ∨ Enters module point later := by
  cases proceeds with
  | next current ended => exact .inl ⟨_, _, _, _, current, ended, rfl⟩
  | iteration current deep found kind first listed ranged small before =>
      exact .inr ⟨.iteration current deep found kind first listed ranged small before, rfl⟩
  | branch current deep found kind listed chosen =>
      exact .inr ⟨.branch current deep found kind listed chosen, rfl⟩
  | call current deep found kind known target region listed arity given =>
      exact .inr ⟨.call current deep found kind known target region listed arity given, rfl⟩

theorem Continues.proceeds (continues : Continues module point later) :
    Proceeds module point later := by
  rcases continues with ⟨id, rest, bound, after, current, ended, rfl⟩ | ⟨⟨proceeds, -⟩, -⟩
  · exact .next current ended
  · exact proceeds

/-- What enters a block is a loop, a conditional or a call. -/
theorem Enters.kind (enters : Enters module point later) :
    ∃ id rest op, point.inner.rest = id :: rest ∧ module.op? id = some op ∧
      (op.kind = .affineFor ∨ op.kind = .affineIf ∨ op.kind = .call) := by
  obtain ⟨proceeds, fresh⟩ := enters
  cases proceeds with
  | next current ended => simp [Point.record, Activation.record] at fresh
  | iteration current deep found kind => exact ⟨_, _, _, current, found, .inl kind⟩
  | branch current deep found kind => exact ⟨_, _, _, current, found, .inr (.inl kind)⟩
  | call current deep found kind => exact ⟨_, _, _, current, found, .inr (.inr kind)⟩

/-- What is entered below the executions under way is a region of a loop or of a conditional. A
conditional enters one block only. -/
theorem Enters.inside (enters : Enters module point later) (below : later.outer = point.trail) :
    later.func = point.func ∧ ∃ id rest op, point.inner.rest = id :: rest ∧
      module.op? id = some op ∧ later.inner.block ∈ op.regions ∧
      (op.kind = .affineFor ∨ op.kind = .affineIf ∧
        (∀ other, Enters module point other → other = later) ∧
        ∀ values after, later.Returns module values after →
          runOp module (runBlock module point.fuel) id point.frame point.machine =
            .ok (.returned values) after) := by
  obtain ⟨proceeds, fresh⟩ := enters
  cases proceeds with
  | next current ended => simp [Point.record, Activation.record] at fresh
  | iteration current deep found kind first =>
      exact ⟨rfl, _, _, _, current, found, List.mem_of_mem_head? first, .inl kind⟩
  | @branch id rest op body block fuel middle current deep found kind listed chosen =>
      refine ⟨rfl, _, _, _, current, found, mem_regions_of_branch chosen, .inr ⟨kind, ?_, ?_⟩⟩
      · rintro other ⟨proceeds, fresh⟩
        cases proceeds with
        | next current ended => simp [Point.record, Activation.record] at fresh
        | iteration current' _ found' kind' =>
            cases current.symm.trans current'
            cases found.symm.trans found'
            cases kind.symm.trans kind'
        | branch current' deep' found' kind' listed' chosen' =>
            cases current.symm.trans current'
            cases found.symm.trans found'
            cases chosen.symm.trans chosen'
            cases listed.symm.trans listed'
            cases deep.symm.trans deep'
            rfl
        | call current' _ found' kind' =>
            cases current.symm.trans current'
            cases found.symm.trans found'
            cases kind.symm.trans kind'
      · intro values after returned
        rw [runOp_conditional found kind]
        refine bind_eq_ok.mpr ⟨some values, after, ?_, rfl⟩
        refine bind_eq_ok.mpr ⟨some body, middle, chosen, ?_⟩
        rw [deep]
        simp only [runBlock_apply listed]
        exact returned
  | call current deep found kind known target region listed arity given => cases below

/-- A block of a function is inside of the operations that are around an earlier one. -/
theorem Continues.encloses (continues : Continues module point later)
    (assembled : module.Assembled) (standing : point.Stands module) {outer : OpId}
    (encloses : module.Encloses outer point.inner.block) :
    module.Encloses outer later.inner.block := by
  rcases continues with ⟨id, rest, bound, after, current, ended, rfl⟩ | ⟨enters, below⟩
  · exact encloses
  · obtain ⟨-, id, rest, op, current, found, member, -⟩ := enters.inside below
    obtain ⟨around, known, ops⟩ := standing.placed point.inner List.mem_cons_self
    obtain ⟨op', there, parent⟩ := assembled.forest.listed known id (by simp [ops, current])
    obtain rfl := Option.some.inj (found.symm.trans there)
    exact .inner (parent ▸ encloses) found member

theorem Continues.stands (continues : Continues module point later)
    (assembled : module.Assembled) (standing : point.Stands module) : later.Stands module :=
  continues.proceeds.stands assembled standing

theorem Continues.func_eq (continues : Continues module point later) : later.func = point.func := by
  rcases continues with ⟨id, rest, bound, after, current, ended, rfl⟩ | ⟨enters, below⟩
  · rfl
  · exact (enters.inside below).1

theorem encloses_of_continues (continues : Relation.ReflTransGen (Continues module) point last)
    (assembled : module.Assembled) (standing : point.Stands module) {outer : OpId}
    (encloses : module.Encloses outer point.inner.block) :
    module.Encloses outer last.inner.block := by
  induction continues using Relation.ReflTransGen.head_induction_on with
  | refl => exact encloses
  | head first _ ih =>
      exact ih (first.stands assembled standing) (first.encloses assembled standing encloses)

end Steps

/-! ## Out of conditionals -/

/-- No loop of a function is around a block. -/
def LoopFree (module : Module) (func : OpId) (block : BlockId) : Prop :=
  ∀ loop, module.OfKind .affineFor loop → module.Holds func loop → ¬ module.Encloses loop block

section Returning

variable {module : Module} {point later last : Point} (assembled : module.Assembled)
  (standing : point.Stands module) {values : List Datum} {after : Machine}
include assembled standing

/-- On the way to a point that no loop is around, only conditionals enter blocks. -/
theorem conditional_of_loopFree (enters : Enters module point later)
    (below : later.outer = point.trail)
    (continues : Relation.ReflTransGen (Continues module) later last)
    (free : LoopFree module point.func last.inner.block) :
    ∃ id rest, point.inner.rest = id :: rest ∧
      (∀ other, Enters module point other → other = later) ∧
      ∀ values after, later.Returns module values after →
        runOp module (runBlock module point.fuel) id point.frame point.machine =
          .ok (.returned values) after := by
  obtain ⟨-, id, rest, op, current, found, member, kind⟩ := enters.inside below
  rcases kind with loop | ⟨-, only, returns⟩
  · have inside : module.Encloses id last.inner.block :=
      encloses_of_continues continues assembled (enters.1.stands assembled standing)
        (.region found member)
    obtain ⟨around, known, ops⟩ := standing.placed point.inner List.mem_cons_self
    obtain ⟨op', there, parent⟩ := assembled.forest.listed known id (by simp [ops, current])
    obtain rfl := Option.some.inj (found.symm.trans there)
    have held : module.Holds point.func id :=
      ⟨op, found, parent ▸ standing.nested.encloses point.inner List.mem_cons_self⟩
    exact absurd inside (free id ⟨op, found, loop⟩ held)
  · exact ⟨id, rest, current, only, returns⟩

/-- **Returns come out.** If the run of a function gets from a point to another one with no loop
around, and the block of that one returns, then so does the block of the first one. -/
theorem returns_of_continues (continues : Relation.ReflTransGen (Continues module) point last)
    (free : LoopFree module point.func last.inner.block)
    (returned : last.Returns module values after) : point.Returns module values after := by
  induction continues using Relation.ReflTransGen.head_induction_on with
  | refl => exact returned
  | @head point later first further ih =>
      have inner := ih (first.stands assembled standing) (first.func_eq ▸ free)
      rcases first with ⟨id, rest, bound, middle, current, ended, rfl⟩ | ⟨enters, below⟩
      · rw [Point.Returns, current, runOps]
        exact bind_eq_ok.mpr ⟨_, _, ended, inner⟩
      · obtain ⟨id, rest, current, -, returns⟩ :=
          conditional_of_loopFree assembled standing enters below further free
        rw [Point.Returns, current, runOps]
        exact bind_eq_ok.mpr ⟨_, _, returns values after inner, rfl⟩

/-- An operation ends in one way. -/
theorem Completes.unique {other : Point} (completes : Completes module point later)
    (likewise : Completes module point other) : later = other := by
  obtain ⟨id, rest, bound, after, current, ended, rfl⟩ := completes
  obtain ⟨id', rest', bound', after', current', ended', rfl⟩ := likewise
  cases current.symm.trans current'
  have same := ended.symm.trans ended'
  simp only [EStateM.Result.ok.injEq, Step.next.injEq] at same
  obtain ⟨frames, rfl⟩ := same
  -- The frame tells what was bound, since nothing was bound to the operation before.
  have new := not_done assembled standing current
  obtain ⟨scope, scopes, frame, filled⟩ : ∃ scope scopes, point.frame = scope :: scopes ∧
      point.inner.Fills scope := by
    have fills := standing.fills
    generalize point.frame = frame at fills
    cases fills with
    | cons filled _ => exact ⟨_, _, rfl, filled⟩
  have absent : ∀ position datum, Table.find? scope (.result id position) ≠ some datum := by
    intro position datum found
    obtain ⟨_, listed, -⟩ := (filled _ datum).mp found
    exact new (List.mem_map.mpr ⟨_, listed, rfl⟩)
  have read : ∀ bound position datum, Table.find?
      ((Frame.binding (scope :: scopes) id bound).headD .empty) (.result id position) =
        some datum ↔ bound[position]? = some datum := by
    intro bound position datum
    obtain ⟨grown, grows, known⟩ := Frame.binding_cons scope scopes id bound
    rw [grows, List.headD_cons, known]
    simp [absent]
  have bounds : bound = bound' := by
    refine List.ext_getElem? fun position => Option.ext fun datum => ?_
    rw [← read bound, ← read bound', ← frame, frames]
  rw [bounds]

omit assembled standing in
theorem Before.head {entry : Point} (first : Continues module entry later)
    (before : Before module later point last) : Before module entry point last := by
  rcases before with ⟨reaches, further⟩ | ⟨way, next, inner, reaches, rest⟩
  · exact .inl ⟨.head first reaches, further⟩
  · exact .inr ⟨way, next, inner, .head first reaches, rest⟩

/-- **Nothing comes after a return.** If the run of a function gets to a point with no loop around,
at which the block returns without executing anything else, then all points of the run come before
that one. -/
theorem before_of_reaches (continues : Relation.ReflTransGen (Continues module) point last)
    (free : LoopFree module point.func last.inner.block)
    (returned : last.Returns module values after) (stops : ∀ next, ¬ Proceeds module last next)
    {other : Point} (reaches : Relation.ReflTransGen (Proceeds module) point other) :
    Before module point other last := by
  induction continues using Relation.ReflTransGen.head_induction_on with
  | refl =>
      rcases reaches.cases_head with rfl | ⟨next, proceeds, -⟩
      · exact .inl ⟨.refl, .refl⟩
      · exact absurd proceeds (stops next)
  | @head point later first further ih =>
      have stands := first.stands assembled standing
      have loopFree : LoopFree module later.func last.inner.block := first.func_eq ▸ free
      rcases reaches.cases_head with rfl | ⟨next, proceeds, onward⟩
      · exact .inl ⟨.refl, .head first further⟩
      rcases first with completes | ⟨enters, below⟩
      · rcases proceeds.completes_or_enters with likewise | inside
        · obtain rfl := completes.unique assembled standing likewise
          exact .head (.inl completes) (ih stands loopFree onward)
        · exact .inr ⟨point, later, next, .refl, completes, further, inside, onward⟩
      · obtain ⟨id, rest, current, only, returns⟩ :=
          conditional_of_loopFree assembled standing enters below further free
        rcases proceeds.completes_or_enters with
          ⟨id', rest', bound, middle, current', ended, -⟩ | inside
        · -- The conditional returns, so it does not end.
          cases current.symm.trans current'
          have inner := returns_of_continues assembled stands further loopFree returned
          cases ended.symm.trans (returns values after inner)
        · obtain rfl := only next inside
          exact .head (.inr ⟨enters, below⟩) (ih stands loopFree onward)

end Returning

/-! ## The function -/

section Starting

variable {module : Module} {depth : Nat} {func : OpId} {name : String} {args : List Datum}
  {machine : Machine} {entry : Point}

theorem Starts.stands (starts : Starts module depth func name args machine entry) :
    entry.Stands module := by
  obtain ⟨body, block, fuel, region, listed, -, -, rfl⟩ := starts
  exact stands_entry region listed _ _ _

/-- A function gives what its body returns. -/
theorem Starts.runFunction_eq (starts : Starts module depth func name args machine entry)
    {values : List Datum} {after : Machine} (returned : entry.Returns module values after) :
    runFunction module (runBlock module depth) func name args machine = .ok values after := by
  obtain ⟨body, block, fuel, region, listed, arity, rfl, rfl⟩ := starts
  rw [runFunction_apply region listed arity, runBlock_apply listed]
  exact bind_eq_ok.mpr ⟨some values, after, returned, rfl⟩

end Starting

/-- **A return ends its function.** In a module that was assembled in any way, let the run of a
function, to whatever depth blocks may nest, get to a return whose operands have values, with no
loop of the function around the return. Then the function gives these values, with the machine as it
is at the return, and so does a call from outside; and all points that the run gets to, those in
functions that are called included, come before the return. -/
theorem return_ends_function {module : Module} (assembled : module.Assembled) {depth : Nat}
    {func : OpId} {name : String} {args : List Datum} {machine : Machine} {entry last : Point}
    (starts : Starts module depth func name args machine entry)
    (continues : Relation.ReflTransGen (Continues module) entry last)
    {id : OpId} {rest : List OpId} {op : Operation} {values : List Datum}
    (current : last.inner.rest = id :: rest) (found : module.op? id = some op)
    (kind : op.kind = .ret) (given : op.operands.map last.frame.find? = values.map some)
    (free : ∀ loop, module.OfKind .affineFor loop → module.Holds func loop →
      ¬ module.Holds loop id) :
    runFunction module (runBlock module depth) func name args machine =
        .ok values last.machine ∧
      (∀ (buffers : List Buffer) (before : Machine), module.function? name = some func →
        args = handles before.heap.size buffers.length →
        machine = ⟨before.heap ++ buffers.toArray, before.log⟩ →
        (call module depth name buffers before).1 =
          ⟨scalarResults func values, returned before.heap.size buffers.length last.machine.heap⟩) ∧
      ∀ point, Relation.ReflTransGen (Proceeds module) entry point →
        Before module entry point last := by
  have standing := starts.stands
  have same : entry.func = func := by
    obtain ⟨_, _, _, -, -, -, -, rfl⟩ := starts
    rfl
  have loopFree : LoopFree module entry.func last.inner.block := by
    intro loop ofKind held encloses
    have reaches : Relation.ReflTransGen (Proceeds module) entry last :=
      Relation.ReflTransGen.mono (fun _ _ first => Continues.proceeds first) _ _ continues
    have stands := stands_of_reaches assembled standing reaches
    obtain ⟨around, known, ops⟩ := stands.placed last.inner List.mem_cons_self
    obtain ⟨op', there, parent⟩ := assembled.forest.listed known id (by simp [ops, current])
    obtain rfl := Option.some.inj (found.symm.trans there)
    exact free loop ofKind (same ▸ held) ⟨op, found, parent ▸ encloses⟩
  have executed : runOp module (runBlock module last.fuel) id last.frame last.machine =
      .ok (.returned values) last.machine := ret_apply found kind given
  have returned : last.Returns module values last.machine := by
    rw [Point.Returns, current, runOps]
    exact bind_eq_ok.mpr ⟨_, _, executed, rfl⟩
  have stops : ∀ next, ¬ Proceeds module last next := by
    intro next proceeds
    rcases proceeds.completes_or_enters with ⟨id', rest', bound, after, current', ended, -⟩ | enters
    · cases current.symm.trans current'
      cases ended.symm.trans executed
    · obtain ⟨id', rest', op', current', found', enters⟩ := enters.kind
      cases current.symm.trans current'
      cases found.symm.trans found'
      rcases enters with other | other | other <;> cases kind.symm.trans other
  have ran := starts.runFunction_eq
    (returns_of_continues assembled standing continues loopFree returned)
  refine ⟨ran, ?_, fun point reaches =>
    before_of_reaches assembled standing continues loopFree returned stops reaches⟩
  rintro buffers before named rfl rfl
  rw [call_apply named, ran]

/-! ## Instances -/

/-- A function that returns a number inside of two conditionals, before a loop. -/
def nestedExit : Module :=
  let condition : List (String × Attribute) := [("condition", .integerSet ⟨0, 0, []⟩)]
  let drafts : List (OpDraft × BlockId) := [
    ({ kind := .func, attributes := [("sym_name", .str "exit")], regions := [[]] }, ⟨0⟩),
    ({ kind := .constant, results := [.scalar .int32], attributes := [("value", .int 7 .int32)] },
      ⟨1⟩),
    ({ kind := .affineIf, attributes := condition, regions := [[]] }, ⟨1⟩),
    ({ kind := .affineIf, attributes := condition, regions := [[]] }, ⟨2⟩),
    ({ kind := .ret, operands := [.result ⟨1⟩ 0] }, ⟨3⟩),
    ({ kind := .affineFor,
       attributes := [("lower_bound", .affineMap (.constant 0)),
        ("upper_bound", .affineMap (.constant 2)), ("step", .index 1)],
       regions := [[.scalar .index]] }, ⟨1⟩),
    ({ kind := .ret }, ⟨1⟩)]
  drafts.foldl (fun module draft => (module.create draft.1 (.atEnd draft.2)).2) .empty

theorem nestedExit_assembled : nestedExit.Assembled :=
  .create _ (.create _ (.create _ (.create _ (.create _ (.create _ (.create _ .empty rfl) rfl) rfl)
    rfl) rfl) rfl) rfl

/-- The return ends both conditionals and the function, and the loop is not executed. -/
theorem nestedExit_ends_function :
    ∃ entry last, Starts nestedExit 4 ⟨0⟩ "exit" [] .fresh entry ∧
      Relation.ReflTransGen (Continues nestedExit) entry last ∧ last.inner.rest = [⟨4⟩] ∧
      runFunction nestedExit (runBlock nestedExit 4) ⟨0⟩ "exit" [] .fresh =
        .ok [.scalar (.int 7)] last.machine ∧
      ∀ point, Relation.ReflTransGen (Proceeds nestedExit) entry point →
        Before nestedExit entry point last := by
  let machine : Machine := { Machine.fresh with log := #[.interpret "exit" 0] }
  let entry : Point := .entry ⟨0⟩ ⟨1⟩ [⟨1⟩, ⟨2⟩, ⟨5⟩, ⟨6⟩] [] machine 3
  let outer := entry.record ⟨1⟩ [.scalar (.int 7)] [⟨2⟩, ⟨5⟩, ⟨6⟩] machine
  let inner := outer.enter ⟨2⟩ [⟨3⟩] [] machine 2
  let last := inner.enter ⟨3⟩ [⟨4⟩] [] machine 1
  have starts : Starts nestedExit 4 ⟨0⟩ "exit" [] .fresh entry :=
    ⟨⟨1⟩, _, 3, rfl, rfl, rfl, rfl, rfl⟩
  have ended : Continues nestedExit entry outer := .inl ⟨_, _, _, _, rfl, rfl, rfl⟩
  have entered : Proceeds nestedExit outer inner :=
    @Proceeds.branch nestedExit outer ⟨2⟩ _ _ ⟨2⟩ ⟨[], [⟨3⟩], some ⟨2⟩⟩ 2 machine
      rfl rfl rfl rfl rfl rfl
  have again : Proceeds nestedExit inner last :=
    @Proceeds.branch nestedExit inner ⟨3⟩ _ _ ⟨3⟩ ⟨[], [⟨4⟩], some ⟨3⟩⟩ 1 machine
      rfl rfl rfl rfl rfl rfl
  have continues : Relation.ReflTransGen (Continues nestedExit) entry last :=
    ((Relation.ReflTransGen.single ended).tail (.inr ⟨⟨entered, rfl⟩, rfl⟩)).tail
      (.inr ⟨⟨again, rfl⟩, rfl⟩)
  have free : ∀ loop, nestedExit.OfKind .affineFor loop → nestedExit.Holds ⟨0⟩ loop →
      ¬ nestedExit.Holds loop ⟨4⟩ := by
    rintro loop ⟨op, there, kind⟩ - inside
    have before := nestedExit_assembled.numbered.holds_lt inside
    have others : ∀ position < 4, ∀ op ∈ nestedExit.op? ⟨position⟩, op.kind ≠ .affineFor := by
      decide +kernel
    exact others loop.index before op there kind
  obtain ⟨ran, -, before⟩ := return_ends_function nestedExit_assembled starts continues rfl rfl rfl
    (show _ = [Datum.scalar (.int 7)].map some from rfl) free
  exact ⟨entry, last, starts, continues, rfl, ran, before⟩

/-- A function with a loop that returns a number, before the return of another number. -/
def early : Module :=
  let drafts : List (OpDraft × BlockId) := [
    ({ kind := .func, attributes := [("sym_name", .str "early")], regions := [[]] }, ⟨0⟩),
    ({ kind := .constant, results := [.scalar .int32], attributes := [("value", .int 7 .int32)] },
      ⟨1⟩),
    ({ kind := .constant, results := [.scalar .int32], attributes := [("value", .int 9 .int32)] },
      ⟨1⟩),
    ({ kind := .affineFor,
       attributes := [("lower_bound", .affineMap (.constant 0)),
        ("upper_bound", .affineMap (.constant 2)), ("step", .index 1)],
       regions := [[.scalar .index]] }, ⟨1⟩),
    ({ kind := .ret, operands := [.result ⟨1⟩ 0] }, ⟨2⟩),
    ({ kind := .ret, operands := [.result ⟨2⟩ 0] }, ⟨1⟩)]
  drafts.foldl (fun module draft => (module.create draft.1 (.atEnd draft.2)).2) .empty

theorem early_assembled : early.Assembled :=
  .create _ (.create _ (.create _ (.create _ (.create _ (.create _ .empty rfl) rfl) rfl) rfl)
    rfl) rfl

/-- A return in a loop does not end the function: the run gets to it, and the function gives the
values of another return, which is executed later. -/
theorem early_goes_on :
    early.Assembled ∧ ∃ entry last op,
      Starts early 3 ⟨0⟩ "early" [] .fresh entry ∧
      Relation.ReflTransGen (Continues early) entry last ∧ last.inner.rest = [⟨4⟩] ∧
      early.op? ⟨4⟩ = some op ∧ op.kind = .ret ∧
      op.operands.map last.frame.find? = [some (.scalar (.int 7))] ∧
      runFunction early (runBlock early 3) ⟨0⟩ "early" [] .fresh =
        .ok [.scalar (.int 9)] last.machine := by
  let machine : Machine := { Machine.fresh with log := #[.interpret "early" 0] }
  let entry : Point := .entry ⟨0⟩ ⟨1⟩ [⟨1⟩, ⟨2⟩, ⟨3⟩, ⟨5⟩] [] machine 2
  let second := entry.record ⟨1⟩ [.scalar (.int 7)] [⟨2⟩, ⟨3⟩, ⟨5⟩] machine
  let third := second.record ⟨2⟩ [.scalar (.int 9)] [⟨3⟩, ⟨5⟩] machine
  let last := third.enter ⟨2⟩ [⟨4⟩] [.scalar (.int 0)] machine 1
  have starts : Starts early 3 ⟨0⟩ "early" [] .fresh entry :=
    ⟨⟨1⟩, _, 2, rfl, rfl, rfl, rfl, rfl⟩
  have first : Continues early entry second := .inl ⟨_, _, _, _, rfl, rfl, rfl⟩
  have next : Continues early second third := .inl ⟨_, _, _, _, rfl, rfl, rfl⟩
  have iteration : Proceeds early third last :=
    @Proceeds.iteration early third ⟨3⟩ _ _ ⟨2⟩ ⟨[.scalar .index], [⟨4⟩], some ⟨3⟩⟩ 1 ⟨0, 2, 1⟩ 0
      machine machine rfl rfl rfl rfl rfl rfl rfl (by decide) rfl
  have continues : Relation.ReflTransGen (Continues early) entry last :=
    ((Relation.ReflTransGen.single first).tail next).tail (.inr ⟨⟨iteration, rfl⟩, rfl⟩)
  exact ⟨early_assembled, entry, last, _, starts, continues, rfl, rfl, rfl, rfl, rfl⟩

end Machine

end AffineKernel
