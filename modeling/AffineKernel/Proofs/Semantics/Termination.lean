import AffineKernel.Proofs.Semantics.Steps

/-!
# Termination

A call ends, if no function calls itself and no counter of a loop gets out of the
range of the words. There are two measures. Blocks nest, within a function and
through calls, to a depth that the number of blocks exceeds, because what can be
entered from a block has a smaller height than the block (`Machine.blocks_end`).
And a loop has a number of iterations that is known when it begins, whatever its
step is, for a step below one counts as one.

So a run with enough depth does not stop for want of depth, and the steps of a run
without any bound get to the same end (`Machine.call_terminates`). If the
operations are complete, the end is a result or a failure that tells the caller
what went wrong, or the steps get to an operation that leaves the integers that
hold its numbers. If an operation lacks its region, say, then the end may be
another one (`Machine.hollow_malformed`).
-/

set_option autoImplicit false

namespace AffineKernel

namespace Machine

/-! ## Blocks that end -/

section Depth

variable {module : Module} (forest : module.Forest) (acyclic : module.Acyclic)
include forest acyclic

/-- Without recursion, a block ends if more depth is allowed than its height. -/
theorem blocks_end : ∀ {fuel : Nat} {func : OpId} {block : BlockId},
    module.Within func block → module.height block < fuel →
    BlockEnds module.Complete (runBlock module fuel) block := by
  intro fuel
  induction fuel with
  | zero => exact fun _ small => absurd small (Nat.not_lt_zero _)
  | succ fuel ih =>
      intro func block within small count args frame given held
      obtain ⟨found, listed⟩ := within.exists_block forest
      rw [show runBlock module (fuel + 1) block args frame =
        runOps (runOp module (runBlock module fuel)) found.ops (frame.enter block args) by
          simp only [runBlock, listed, require_some, pure_bind]]
      refine runOps_ends (fun id inside count frame held => ?_) (held.enter given block)
      obtain ⟨op, there, -⟩ := forest.listed listed id inside
      refine runOp_ends there held forest (fun complete => complete.op there) fun inner opens => ?_
      have enters : module.Enters block inner := ⟨found, id, op, listed, inside, there, opens⟩
      obtain ⟨callee, deeper, -⟩ := within.enters forest enters
      have less := Module.height_lt forest acyclic within enters
      exact ih deeper (by omega)

/-- Without recursion, a function ends if as much depth is allowed as there are blocks. -/
theorem function_ends {func : OpId} {op : Operation} (there : module.op? func = some op)
    (kind : op.kind = .func) {depth : Nat} (deep : module.blocks.size ≤ depth) (name : String)
    {args : List Datum} {count : Nat} (given : ∀ datum ∈ args, datum.Held count) :
    Ends module.Complete count (runFunction module (runBlock module depth) func name args)
      fun size values => ∀ datum ∈ values, datum.Held size := by
  refine runFunction_ends forest (fun block region => ?_) given
  have within : module.Within func block := .body there kind region
  exact blocks_end forest acyclic within
    (Nat.lt_of_lt_of_le (Module.height_lt_size forest acyclic within) deep)

end Depth

/-! ## Overflows -/

namespace State

section Overflows

variable {module : Module} {id : OpId} {kind : OpKind} {last : Machine}

theorem after_eq_error {α : Type} {result : EStateM.Result RunError Machine α}
    {next : α → Machine → State} {error : RunError}
    (ended : after result next = .ended (.error error last)) :
    result = .error error last ∨
      ∃ a machine, result = .ok a machine ∧ next a machine = .ended (.error error last) := by
  cases result with
  | ok a machine => exact .inr ⟨a, machine, rfl, ended⟩
  | error other machine =>
      cases ended
      exact .inl rfl

/-- No number is computed when a block is entered. -/
theorem enterBlock_ne_overflow {block : BlockId} {args : List Datum} {frame : Frame}
    {pending : List Pending} {machine : Machine} :
    enterBlock module block args frame pending machine ≠
      .ended (.error (.overflow id kind) last) := by
  unfold enterBlock
  split <;> nofun

theorem enterFunction_ne_overflow {func : OpId} {name : String} {args : List Datum}
    {pending : List Pending} {machine : Machine} :
    enterFunction module func name args pending machine ≠
      .ended (.error (.overflow id kind) last) := by
  unfold enterFunction
  split
  · nofun
  split
  · nofun
  split
  · nofun
  · exact enterBlock_ne_overflow

/-- The operation at which a state overflows. -/
def Strains (module : Module) (id : OpId) (kind : OpKind) (state : State) : Prop :=
  ∃ op rest frame pending machine, state = .running (id :: rest) frame pending machine ∧
    module.op? id = some op ∧ kind = op.kind ∧ Site.Overflows ⟨module, id, op⟩ frame

/-- An operation that overflows when it begins. -/
theorem begin_overflow {current : OpId} {rest : List OpId} {frame : Frame}
    {pending : List Pending} {machine : Machine}
    (ended : begin module current rest frame pending machine =
      .ended (.error (.overflow id kind) last)) :
    ∃ op, current = id ∧ module.op? id = some op ∧ kind = op.kind ∧
      Site.Overflows ⟨module, id, op⟩ frame := by
  cases found : module.op? current with
  | none =>
      simp only [begin, found] at ended
      cases ended
  | some op =>
      have own : ∀ {α : Type} {action : Exec α} {before : Machine},
          FailsOnly ((site found).Explains frame) action →
          action before = .error (.overflow id kind) last →
          ∃ op, current = id ∧ module.op? id = some op ∧ kind = op.kind ∧
            Site.Overflows ⟨module, id, op⟩ frame := by
        intro α action before explains failed
        obtain ⟨rfl, rfl, overflows⟩ := explains _ _ _ failed
        exact ⟨op, rfl, found, rfl, overflows⟩
      by_cases loop : op.kind = .affineFor
      · rw [begin_loop found loop] at ended
        rcases after_eq_error ended with failed | ⟨range, entry, -, later⟩
        · exact own ((site found).loopRange_explains loop) failed
        · cases first : op.regions.head? with
          | none =>
              rw [first] at later
              cases later
          | some body =>
              rw [first] at later
              cases later
      by_cases conditional : op.kind = .affineIf
      · rw [begin_conditional found conditional] at ended
        rcases after_eq_error ended with failed | ⟨region, entry, -, later⟩
        · exact own ((site found).branch_explains conditional) failed
        · cases region with
          | none => cases later
          | some block => exact absurd later enterBlock_ne_overflow
      by_cases call : op.kind = .call
      · rw [begin_call found call] at ended
        rcases after_eq_error ended with failed | ⟨target, entry, -, later⟩
        · exact own (site found).target_explains failed
        · rcases after_eq_error later with failed | ⟨args, middle, -, later⟩
          · exact own (.mapM fun operand member => (site found).lookup_explains member) failed
          · exact absurd later enterFunction_ne_overflow
      · rw [begin_plain found loop conditional call] at ended
        rcases after_eq_error ended with failed | ⟨step, entry, -, later⟩
        · rcases runOp_cases found frame with ⟨action, runs, plain⟩ | kind | kind | kind
          · exact own plain.explains (runs still ▸ failed)
          · exact absurd kind loop
          · exact absurd kind conditional
          · exact absurd kind call
        · cases step <;> cases later

/-- A step that ends in an overflow is one at an operation that overflows. -/
theorem step_overflow {state : State}
    (ended : step module state = .ended (.error (.overflow id kind) last)) :
    state = .ended (.error (.overflow id kind) last) ∨ Strains module id kind state := by
  cases state with
  | running ops frame pending machine =>
      cases ops with
      | nil => cases ended
      | cons current rest =>
          obtain ⟨op, rfl, found, sort, overflows⟩ := begin_overflow ended
          exact .inr ⟨op, rest, frame, pending, machine, rfl, found, sort, overflows⟩
  | iterating body range counter rest frame pending machine =>
      rw [step] at ended
      split at ended
      · exact absurd ended enterBlock_ne_overflow
      · cases ended
  | leaving values pending machine =>
      rw [step] at ended
      cases pending with
      | nil => cases ended
      | cons first others =>
          cases first with
          | branch rest frame => cases values <;> cases ended
          | loop body range counter rest frame => cases ended
          | call caller count rest frame => cases ended
  | ended outcome => exact .inl ended

/-- **Where runs overflow.** Steps that end in an overflow get to an operation that overflows. -/
theorem exists_strains {first : State} {count : Nat}
    (ended : (step module)^[count] first = .ended (.error (.overflow id kind) last))
    (begun : first ≠ .ended (.error (.overflow id kind) last)) :
    ∃ state, Reaches module first state ∧ Strains module id kind state := by
  induction count generalizing first with
  | zero => exact absurd ended begun
  | succ count ih =>
      rw [Function.iterate_succ_apply] at ended
      by_cases failed : step module first = .ended (.error (.overflow id kind) last)
      · exact ⟨first, .refl first, (step_overflow failed).resolve_left begun⟩
      · obtain ⟨state, reached, strains⟩ := ih ended failed
        exact ⟨state, reached.step, strains⟩

end Overflows

end State

/-! ## Calls -/

/-- The first state of a call of a function. -/
def State.start (module : Module) (func : OpId) (name : String) (args : List Buffer)
    (machine : Machine) : State :=
  enterFunction module func name (handles machine.heap.size args.length) []
    { machine with heap := machine.heap ++ args.toArray }

/-- What a call of a function that has ended comes to. -/
def answer (func : OpId) (args : List Buffer) (base : Nat) : Outcome → Reply × Machine
  | .ok values machine =>
    (⟨scalarResults func (values.getD []),
      (List.range args.length).filterMap fun position => machine.heap[base + position]?⟩, machine)
  | .error error machine => (⟨.error error, args⟩, machine)

section Calls

variable {module : Module} {func : OpId} {name : String} {args : List Buffer} {machine : Machine}

theorem call_eq_answer {depth : Nat} {outcome : Outcome}
    (target : module.function? name = some func)
    (ran : runFunction module (runBlock module depth) func name
      (handles machine.heap.size args.length)
      { machine with heap := machine.heap ++ args.toArray } = State.returned outcome) :
    call module depth name args machine = answer func args machine.heap.size outcome := by
  unfold handles at ran
  simp only [call, target, ran]
  cases outcome <;> rfl

/-- A run ends in one way only. -/
theorem State.ended_unique {first : State} {outcome other : Outcome}
    (here : Reaches module first (.ended outcome)) (there : Reaches module first (.ended other)) :
    outcome = other := by
  obtain ⟨count, here⟩ := here
  obtain ⟨others, there⟩ := there
  have stays : ∀ more outcome, (step module)^[more] (.ended outcome) = .ended outcome :=
    fun more outcome => Function.iterate_fixed rfl more
  have same : State.ended outcome = .ended other := calc
    State.ended outcome = (step module)^[others] ((step module)^[count] first) := by
      rw [here, stays]
    _ = (step module)^[count] ((step module)^[others] first) := by
      rw [← Function.iterate_add_apply, Nat.add_comm, Function.iterate_add_apply]
    _ = .ended other := by rw [there, stays]
  exact State.ended.inj same

/-- A failure that comes neither from the function nor from its results. -/
theorem answer_failure_ne {error : RunError} {base : Nat} {outcome : Outcome}
    (other : ∀ func, error ≠ .operandKind func .ret .scalar)
    (fails : ∀ last, State.returned outcome ≠ .error error last) :
    (answer func args base outcome).1.failure? ≠ some error := by
  intro failed
  have results := Reply.results_eq_error failed
  cases outcome with
  | ok values last => exact scalarResults_ne other _ _ results
  | error reason last => exact fails last (by rw [← Except.error.inj results]; rfl)

/-- The steps of a bounded call get to the end that the function has, if it does not stop for want
of depth. -/
theorem start_reaches {depth : Nat}
    (bounded : State.Bounded module (.start module func name args machine))
    (shallow : Shallow (runFunction module (runBlock module depth) func name
      (handles machine.heap.size args.length)
      { machine with heap := machine.heap ++ args.toArray })) :
    ∃ outcome : Outcome,
      State.Reaches module (.start module func name args machine) (.ended outcome) ∧
      runFunction module (runBlock module depth) func name
        (handles machine.heap.size args.length)
        { machine with heap := machine.heap ++ args.toArray } = State.returned outcome := by
  obtain ⟨outcome, reached, ran⟩ :=
    State.enterFunction_reaches (State.blocks_trace module depth) bounded shallow
  refine ⟨outcome, reached.trans ?_, ran⟩
  cases outcome with
  | ok values last => exact ⟨1, rfl⟩
  | error error last => exact .refl _

end Calls

/-- A run that ends is bounded if no state of it counts beyond the words. -/
theorem State.bounded_of_ended {module : Module} {first : State} {outcome : Outcome} {count : Nat}
    (ended : (step module)^[count] first = .ended outcome)
    (contained : ∀ position < count, ((step module)^[position] first).Contained) :
    Bounded module first := by
  rintro state ⟨position, rfl⟩
  by_cases before : position < count
  · exact contained position before
  · obtain ⟨more, rfl⟩ := Nat.exists_eq_add_of_le' (Nat.not_lt.mp before)
    rw [Function.iterate_add_apply, ended, Function.iterate_fixed rfl]
    trivial

/-- A loop in steps of zero, which calls a function and contains a loop in negative steps. -/
def nest : Module :=
  let loop (step : Int64) : List (String × Attribute) :=
    [("lower_bound", .affineMap (.constant 0)), ("upper_bound", .affineMap (.constant 2)),
      ("step", .index step)]
  let drafts : List (OpDraft × BlockId) := [
    ({ kind := .func, attributes := [("sym_name", .str "outer")],
       regions := [[.memref [1] .int32]] }, ⟨0⟩),
    ({ kind := .affineFor, attributes := loop 0, regions := [[.scalar .index]] }, ⟨1⟩),
    ({ kind := .call, operands := [.arg ⟨1⟩ 0], attributes := [("callee", .str "inner")] }, ⟨2⟩),
    ({ kind := .affineFor, attributes := loop (-3), regions := [[.scalar .index]] }, ⟨2⟩),
    ({ kind := .func, attributes := [("sym_name", .str "inner")],
       regions := [[.memref [1] .int32]] }, ⟨0⟩),
    ({ kind := .constant, results := [.scalar .int32], attributes := [("value", .int 7 .int32)] },
      ⟨4⟩),
    ({ kind := .store, operands := [.result ⟨5⟩ 0, .arg ⟨4⟩ 0],
       attributes := [("map", .affineMap (.constant 0))] }, ⟨4⟩),
    ({ kind := .ret }, ⟨4⟩)]
  drafts.foldl (fun module draft => (module.create draft.1 (.atEnd draft.2)).2) .empty

theorem nest_assembled : nest.Assembled :=
  .create _ (.create _ (.create _ (.create _ (.create _ (.create _ (.create _ (.create _ .empty rfl)
    rfl) rfl) rfl) rfl) rfl) rfl) rfl

theorem nest_acyclic : nest.Acyclic := nest_assembled.numbered.acyclic (by decide +kernel)

theorem nest_bounded :
    State.Bounded nest (.start nest ⟨0⟩ "outer" [⟨[1], .int32, #[.int 3]⟩] .fresh) := by
  have ended : (State.step nest)^[36]
      (.start nest ⟨0⟩ "outer" [⟨[1], .int32, #[.int 3]⟩] .fresh) =
        .ended (.ok none ⟨#[⟨[1], .int32, #[.int 7]⟩],
          #[.interpret "outer" 1, .interpret "inner" 1, .interpret "inner" 1]⟩) := by rfl
  exact State.bounded_of_ended ended (by decide +kernel)

/-- A loop without a region. It has no iterations. -/
def hollow : Module :=
  let drafts : List (OpDraft × BlockId) := [
    ({ kind := .func, attributes := [("sym_name", .str "hollow")], regions := [[]] }, ⟨0⟩),
    ({ kind := .affineFor,
       attributes := [("lower_bound", .affineMap (.constant 0)),
        ("upper_bound", .affineMap (.constant 0)), ("step", .index 1)] }, ⟨1⟩),
    ({ kind := .ret }, ⟨1⟩)]
  drafts.foldl (fun module draft => (module.create draft.1 (.atEnd draft.2)).2) .empty

theorem hollow_assembled : hollow.Assembled :=
  .create _ (.create _ (.create _ .empty rfl) rfl) rfl

end Machine

end AffineKernel
