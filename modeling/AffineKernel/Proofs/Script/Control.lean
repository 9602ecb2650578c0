import AffineKernel.Proofs.Script.Comparisons
import AffineKernel.Proofs.Simulation.Headers

/-!
# Loops and conditionals of scripts

What the loops and conditionals of a script do when they are run, whatever is in
their bodies.

**Loops.** The numbers of a loop come from its lower bound in steps and are below
its upper bound. For each of them, from the least to the greatest, the body is
entered once, with the number as the value of the loop variable, and nothing
else is done (`Machine.Counts`, `Program.loop_counts`).

**Conditionals.** The body of a conditional is entered once if the condition is
one, and is not entered otherwise (`Program.conditional_tests`). For a truth
value this is to ask whether it is zero. But the condition may be any integer,
and for an integer other than zero and one the body is skipped, too
(`Program.two_skipped`).
-/

set_option autoImplicit false

namespace AffineKernel

/-- Some numbers are those from `low` in steps that are below `high`, and an operation runs its
block for them, in ascending order. -/
structure Machine.Counts (module : Module) (run : RunBlock) (header : BuildM.LoopHeader)
    (entry : Frame) (low high step : Int) (numbers : List Int) : Prop where
  ranges : ∀ number, number ∈ numbers ↔
    ∃ position : Nat, number = low + position * step ∧ number < high
  ascends : numbers.Pairwise (· < ·)
  /-- The next number is a word, too. -/
  fits : ∀ number ∈ numbers, (Scalar.int number).Fits .index ∧
    (Scalar.int (number + step)).Fits .index
  /-- The loop variable has the number in the block. -/
  binds : ∀ number ∈ numbers,
    (entry.enter header.body [.scalar (.int number)]).find? header.counter =
      some (.scalar (.int number))
  runs : runOp module run header.op entry =
    forM numbers (enterFor run header.body entry) >>= fun _ => pure (.next entry)
  /-- The first iteration that fails is the last one. -/
  fails : ∀ {earlier later : List Int} {number : Int} {machine middle last : Machine}
    {error : RunError}, numbers = earlier ++ number :: later →
    forM earlier (enterFor run header.body entry) machine = .ok () middle →
    enterFor run header.body entry number middle = .error error last →
    runOp module run header.op entry machine = .error error last

namespace Machine

/-- A loop over known bounds counts through its range. -/
theorem counts_of_denotes {module : Module} {run : RunBlock} {header : BuildM.LoopHeader}
    {op : Operation} {entry : Frame} {lower upper : BuildM.LoopBound} {spec : BuildM.LoopSpec}
    {low high : Int} (carries : module.Carries header.op op (loopDraft lower upper spec))
    (regions : op.regions = [header.body]) (small : spec.step < 2 ^ 63)
    (lowDenotes : lower.Denotes entry low) (highDenotes : upper.Denotes entry high)
    (word : high + max (spec.step : Int) 1 < 2 ^ 63) :
    Counts module run header entry low high (max spec.step 1)
      (counters low high (max spec.step 1)) := by
  have positive : 0 < max (spec.step : Int) 1 := by omega
  have runs : runOp module run header.op entry = _ :=
    runOp_range carries.found carries.kind carries.operands carries.attributes regions small
      lowDenotes highDenotes (by omega)
  have least := (fits_index_iff.mp lowDenotes.fits).1
  have words : ∀ number ∈ counters low high (max spec.step 1),
      (Scalar.int number).Fits .index ∧
        (Scalar.int (number + max (spec.step : Int) 1)).Fits .index := by
    intro number listed
    obtain ⟨above, below⟩ := mem_counters listed
    rw [fits_index_iff, fits_index_iff]
    omega
  exact
    { ranges := fun number => mem_counters_iff positive
      ascends := pairwise_counters low high _
      fits := words
      binds := fun number _ => Frame.find?_enter_arg rfl
      runs := runs
      fails := by
        intro earlier later number machine middle last error split passed failed
        rw [runs, split]
        exact bind_eq_error.mpr (.inl (forM_error passed failed)) }

end Machine

/-- The integer that a value has after some operations. -/
def Machine.intAfter? (outcome : EStateM.Result RunError Machine Step) (value : Value) :
    Option Int :=
  match outcome with
  | .ok (.next entry) _ =>
    match entry.find? value with
    | some (.scalar scalar) => scalar.asInt?
    | _ => none
  | _ => none

theorem Machine.exists_of_intAfter? (outcome : EStateM.Result RunError Machine Step)
    (value : Value) (x : Int) (known : intAfter? outcome value = some x) :
    ∃ entry reached, outcome = .ok (.next entry) reached ∧
      entry.find? value = some (.scalar (.int x)) := by
  unfold intAfter? at known
  split at known
  · rename_i entry reached
    split at known
    · rename_i scalar found
      cases scalar with
      | float y => cases known
      | int y =>
          cases known
          exact ⟨entry, reached, rfl, found⟩
    · cases known
  · cases known

namespace Session

/-- How a loop is opened. Its bounds are literals or are built to values, one after the other. The
operations that this takes are listed at the insertion point, and then the loop is. In the body the
loop variable stands for the argument of the block. -/
structure OpensLoop (moment : Session) (low high : Bound) (var : Expr) (header : BuildM.LoopHeader)
    (opened : Session) (point : InsertionPoint) (ops : List OpId) (p q : Option Value) : Prop where
  builds : ∃ limit middle,
    low.BuiltTo { moment.context with nextId := moment.context.nextId + 1 } p ∧
    BuildM.buildBound low { moment.context with nextId := moment.context.nextId + 1 } =
      .ok limit middle ∧
    high.BuiltTo middle q
  inserts : moment.context.Inserts point ops header.op opened.context
  counter : ∀ name : Option String, BuildM.build var (opened.insideLoop header var name).context =
    .ok (.value header.counter) (opened.insideLoop header var name).context

/-- A step that does not fail. -/
theorem exists_attempt {α : Type} (action : BuildM α) (session : Session)
    (succeeds : (attempt action session).1.toOption.isSome = true) :
    ∃ a, attempt action session = (.ok a, (attempt action session).2) := by
  rcases ran : attempt action session with ⟨result, after⟩
  rw [ran] at succeeds
  cases result with
  | error error => cases succeeds
  | ok a => exact ⟨a, rfl⟩

end Session

namespace Program

variable {program : Program} {moment opened : Session} {lower upper : IndexTerm}
  {low high : Bound} {spec : BuildM.LoopSpec} {var : Expr} {header : BuildM.LoopHeader}

/-- **Loops.** A loop is opened at some moment of a program. Wherever the operations were executed
that its bounds took, and the bounds have numbers, the loop counts from the lower one to below the
upper one, whatever is in its body by then. -/
theorem loop_counts (passes : Session.Passes program.body (program.session .fresh) moment)
    (lowFound : moment.vars.bound lower = .ok low) (highFound : moment.vars.bound upper = .ok high)
    (begun : Session.attempt (BuildM.beginLoop low high spec) moment = (.ok (var, header), opened))
    (word : spec.step < 2 ^ 32) :
    ∃ point ops p q, moment.OpensLoop low high var header opened point ops p q ∧
      ∀ (module : Module) (run : Machine.RunBlock) (frame entry : Frame)
        (machine reached : Machine) (a b : Int), opened.context.module.Retains module →
        Machine.advance (Machine.runOp module run) ops frame machine =
          .ok (.next entry) reached →
        low.Reads entry p a → high.Reads entry q b → b + max (spec.step : Int) 1 < 2 ^ 63 →
        ∃ numbers, Machine.Counts module run header entry a b (max spec.step 1) numbers := by
  have traced := passes.traced (fun _ _ _ => trivial) (program.session_traced fun _ _ => True)
  obtain ⟨pool, -, within⟩ := traced.within
  obtain ⟨middle, reached, point, p, q, lowLimit, highLimit, lowMade, lowBuilt, highMade, lowLimits,
    highLimits, heads⟩ := BuildM.beginLoop_heads within.upholds (within.holds.bound lowFound)
      (within.holds.bound highFound) (Session.attempt_eq_ok begun)
  obtain ⟨op, carries, regions⟩ := heads.carries
  refine ⟨point, moment.context.module.added reached.module point.block, p, q, ?_, ?_⟩
  · exact
      { builds := ⟨lowLimit, middle, lowMade, lowBuilt, highMade⟩
        inserts := heads.inserts
        counter := fun name => by
          apply BuildM.build_of_bound
          rw [Session.insideLoop_context]
          simp [Context.binding?_bind] }
  · intro module run frame entry machine last a b wider ran lowReads highReads fits
    have retains := heads.retains.trans wider
    exact ⟨_, Machine.counts_of_denotes (carries.of_retains wider) regions (by omega)
      (lowLimits.denotes retains ran lowReads) (highLimits.denotes retains ran highReads) fits⟩

/-- A signed byte that is four, in the deferred mode. -/
def keepsFour : Program where
  mode := some .deferred
  setting := none
  setup := []
  body := [.command ⟨some "n", false⟩ (.make (.constant (.int 4) (.int 8)))]

/-- The session after the byte was constructed. -/
def fourMoment : Session := (Session.runAll keepsFour.body (keepsFour.session .fresh)).2

/-- The byte. -/
def four : Expr := .constant 0 (.int 8) (.int 4)

/-- The loop counts in steps of two. -/
def evenSpec : BuildM.LoopSpec := ⟨2, none, none, false⟩

/-- The session after a loop from minus three below the byte was opened. -/
def loopOpened : Session :=
  (Session.attempt (BuildM.beginLoop (.const (-3)) (.expr four) evenSpec) fourMoment).2

/-- How the blocks of the module are run. -/
def loopRun : Machine.RunBlock := Machine.runBlock loopOpened.context.module 1

/-- The numbers of the loop start at minus three, go in steps of two, and are below four. -/
theorem four_bounds : ∃ header entry numbers,
    Machine.Counts loopOpened.context.module loopRun header entry (-3) 4 2 numbers ∧
      -3 ∈ numbers ∧ 3 ∈ numbers ∧ 2 ∉ numbers ∧ 5 ∉ numbers := by
  have passes : Session.Passes keepsFour.body (keepsFour.session .fresh) fourMoment :=
    .later .here
  have literal : fourMoment.vars.bound (.const (-3)) = .ok (.const (-3)) := rfl
  have named : fourMoment.vars.bound (.var "n") = .ok (.expr four) := by rfl
  obtain ⟨⟨var, header⟩, begun⟩ := Session.exists_attempt
    (BuildM.beginLoop (.const (-3)) (.expr four) evenSpec) fourMoment (by decide +kernel)
  obtain ⟨point, ops, p, q, opens, counts⟩ :=
    loop_counts passes literal named begun (by decide)
  obtain ⟨limit, middle, lowMade, lowBuilt, highMade⟩ := opens.builds
  cases lowMade
  rw [BuildM.buildBound] at lowBuilt
  obtain ⟨-, rfl⟩ := EStateM.Result.ok.inj lowBuilt
  have first : builtValue? (BuildM.build four
      { fourMoment.context with nextId := fourMoment.context.nextId + 1 }) =
        some (.result ⟨0⟩ 0) := by
    decide +kernel
  cases highMade with
  | @expr _ value after built =>
      rw [built] at first
      obtain rfl : value = .result ⟨0⟩ 0 := Option.some.inj first
      obtain rfl : point = .atEnd ⟨0⟩ := Option.some.inj opens.inserts.current.symm
      have three : fourMoment.context.module.added loopOpened.context.module ⟨0⟩ =
          [⟨0⟩, ⟨1⟩] ++ [⟨2⟩] := by
        decide +kernel
      obtain ⟨rfl, -⟩ := List.append_inj' (opens.inserts.added.symm.trans three) rfl
      obtain ⟨entry, reached, ran, found⟩ := Machine.exists_of_intAfter?
        (Machine.advance (Machine.runOp loopOpened.context.module loopRun) [⟨0⟩, ⟨1⟩] [⟨[]⟩] .fresh)
        (.result ⟨0⟩ 0) 4 (by decide +kernel)
      obtain ⟨numbers, counted⟩ : ∃ numbers, Machine.Counts loopOpened.context.module loopRun header
          entry (-3) 4 2 numbers :=
        counts loopOpened.context.module loopRun _ entry _ reached (-3) 4 (.refl _) ran (.const (-3))
          (.expr rfl rfl found) (by decide)
      refine ⟨header, entry, numbers, counted, ?_⟩
      simp only [counted.ranges]
      refine ⟨⟨0, by decide⟩, ⟨3, by decide⟩, ?_, ?_⟩
      · rintro ⟨position, same, -⟩
        omega
      · rintro ⟨position, -, below⟩
        exact absurd below (by decide)

end Program

/-! ## Conditionals -/

/-- A number of a type of at most 64 bits is one if it is one as an `index`. -/
theorem normalize_index_eq_one_iff {dtype : DType} {x : Int} (normal : normalize x dtype = x)
    (narrow : dtype.width ≤ 64) : normalize x .index = 1 ↔ x = 1 := by
  have power : (2 : Int) ^ dtype.width ≤ 2 ^ 64 := by
    exact_mod_cast Nat.pow_le_pow_right (by decide) narrow
  have positive : (0 : Int) < 2 ^ dtype.width := Int.pow_pos (by decide)
  have range : -2 ^ 63 ≤ x ∧ x < 2 ^ 64 := by
    rw [normalize] at normal
    split at normal
    · have nonneg := Int.emod_nonneg x (Int.ne_of_gt positive)
      have small := Int.emod_lt_of_pos x positive
      rw [unsigned] at normal
      omega
    · have least := Int.le_bmod (x := x) (m := 2 ^ dtype.width) (Nat.pow_pos (by decide))
      have greatest := Int.bmod_lt (x := x) (m := 2 ^ dtype.width) (Nat.pow_pos (by decide))
      rw [signed] at normal
      push_cast at least greatest
      omega
  constructor
  · intro one
    have same : (x.bmod (2 ^ 64)) % (2 ^ 64 : Nat) = x % (2 ^ 64 : Nat) := Int.bmod_emod
    have converted : x.bmod (2 ^ 64) = 1 := one
    rw [converted] at same
    omega
  · rintro rfl
    rfl

/-- How a conditional is opened. Its condition is constructed, unless a variable holds it, and then
it is an integer that is built to a value. The operations that this takes are listed at the
insertion point, and then the conditional is. -/
structure Session.OpensConditional (moment : Session) (operand : BuildM Expr) (id : OpId)
    (opened : Session) (condition : Expr) (dtype : DType) (value : Value) (ops : List OpId) :
    Prop where
  type : condition.dtype? = some dtype
  integer : dtype.isIntegerLike = true
  builds : ∃ start middle point, operand moment.context = .ok condition start ∧
    BuildM.build condition start = .ok (.value value) middle ∧
    start.Inserts point ops id opened.context

namespace Program

variable {program : Program} {moment opened : Session}

/-- **Conditionals.** A conditional is opened at some moment of a program. Wherever the operations
were executed that its condition took, and the condition has a number of its type, the body is
entered once if this number is one as an `index`, and nothing is done otherwise. With at most 64 bits
it is one as an `index` only if it is one. -/
theorem conditional_tests (passes : Session.Passes program.body (program.session .fresh) moment)
    {term : Operand} {operand : BuildM Expr} (resolved : moment.vars.operand term = .ok operand)
    {id : OpId} {body : BlockId}
    (begun : Session.attempt (do BuildM.beginConditional (← operand)) moment =
      (.ok (id, body), opened)) :
    ∃ condition dtype value ops,
      moment.OpensConditional operand id opened condition dtype value ops ∧
      ∀ (module : Module) (run : Machine.RunBlock) (frame entry : Frame)
        (machine reached : Machine) (x : Int), opened.context.module.Retains module →
        Machine.advance (Machine.runOp module run) ops frame machine =
          .ok (.next entry) reached →
        normalize x dtype = x → entry.find? value = some (.scalar (.int x)) →
        Machine.runOp module run id entry =
            (if normalize x .index = 1 then Machine.enterOnce run body entry
              else pure (.next entry)) ∧
          (dtype.width ≤ 64 → (normalize x .index = 1 ↔ x = 1)) := by
  have traced := passes.traced (fun _ _ _ => trivial) (program.session_traced fun _ _ => True)
  obtain ⟨pool, -, within⟩ := traced.within
  obtain ⟨condition, start, made, opens⟩ := EStateM.bind_eq_ok (Session.attempt_eq_ok begun)
  obtain ⟨wider, -, upheld, member⟩ :=
    ((within.holds.operand resolved).makes_of_free _ moment.context within.upholds).of_ok made
  obtain ⟨dtype, value, middle, reached, point, index, type, integer, built, indexes, heads⟩ :=
    BuildM.beginConditional_heads upheld member opens
  obtain ⟨op, carries, regions⟩ := heads.carries
  refine ⟨condition, dtype, value, start.module.added reached.module point.block,
    ⟨type, integer, start, middle, point, made, built, heads.inserts⟩, ?_⟩
  intro module run frame entry machine last x wider ran normal found
  have converted := indexes.converts (heads.retains.trans wider) ran normal found
  have known := carries.of_retains wider
  exact ⟨Machine.runOp_test known.found known.kind known.operands known.attributes regions converted
    ⟨rfl, normalize_normalize _ _⟩, normalize_index_eq_one_iff normal⟩

/-- The session after a conditional on the byte was opened. -/
def testOpened : Session :=
  (Session.attempt (do BuildM.beginConditional (← pure four)) fourMoment).2

/-- How the blocks of the module are run. -/
def testRun : Machine.RunBlock := Machine.runBlock testOpened.context.module 1

/-- Four is not one, so the conditional does nothing. -/
theorem four_skipped : ∃ id entry, entry.find? (.result ⟨0⟩ 0) = some (.scalar (.int 4)) ∧
    Machine.runOp testOpened.context.module testRun id entry = pure (.next entry) := by
  have passes : Session.Passes keepsFour.body (keepsFour.session .fresh) fourMoment :=
    .later .here
  have resolved : fourMoment.vars.operand (.var "n") = .ok (pure four) := by rfl
  obtain ⟨⟨id, body⟩, begun⟩ := Session.exists_attempt
    (do BuildM.beginConditional (← pure four)) fourMoment (by decide +kernel)
  obtain ⟨condition, dtype, value, ops, opens, tests⟩ := conditional_tests passes resolved begun
  obtain ⟨start, middle, point, made, built, inserts⟩ := opens.builds
  cases made
  obtain rfl : DType.int 8 = dtype := Option.some.inj opens.type
  have first : builtValue? (BuildM.build four fourMoment.context) = some (.result ⟨0⟩ 0) := by
    decide +kernel
  rw [built] at first
  obtain rfl : value = .result ⟨0⟩ 0 := Option.some.inj first
  obtain rfl : point = .atEnd ⟨0⟩ := Option.some.inj inserts.current.symm
  have three : fourMoment.context.module.added testOpened.context.module ⟨0⟩ =
      [⟨0⟩, ⟨1⟩] ++ [⟨2⟩] := by
    decide +kernel
  obtain ⟨rfl, -⟩ := List.append_inj' (inserts.added.symm.trans three) rfl
  obtain ⟨entry, reached, ran, found⟩ := Machine.exists_of_intAfter?
    (Machine.advance (Machine.runOp testOpened.context.module testRun) [⟨0⟩, ⟨1⟩] [⟨[]⟩] .fresh)
    (.result ⟨0⟩ 0) 4 (by decide +kernel)
  obtain ⟨runs, -⟩ :=
    tests testOpened.context.module testRun _ entry _ reached 4 (.refl _) ran rfl found
  refine ⟨id, entry, found, ?_⟩
  rw [runs, if_neg (by decide)]

/-- A function that stores seven under a condition, and returns what was stored. -/
def storesIf (condition : Int64) : Program where
  mode := some .deferred
  setting := none
  setup := []
  body := [.function ⟨none, false⟩ "f" [] (some "x")
    [.command ⟨some "t", false⟩ (.alloc "t" [1] .int32),
      .command ⟨some "c", false⟩ (.make (.constant (.int condition) (.int 8))),
      .conditional ⟨none, false⟩ (.var "c")
        [.command ⟨some "s", false⟩ (.make (.store (.int 7) "t" [.const 0])),
          .command ⟨none, false⟩ (.build "s")],
      .command ⟨some "x", false⟩ (.make (.load "t" [.const 0]))]]

/-- What the function returns. -/
def storesIfResult (condition : Int64) : Option (List (Option Int)) :=
  let program := storesIf condition
  let module := (Session.runAll program.body (program.session .fresh)).2.context.module
  (Machine.call module 2 "f" [] .fresh).1.results.toOption.map (List.map Scalar.asInt?)

/-- The body is entered if the condition is one, but not if it is two, which is not zero either. -/
theorem two_skipped :
    normalize 2 (.int 8) = 2 ∧ storesIfResult 1 = some [some 7] ∧
      storesIfResult 2 = some [some 0] := by
  decide +kernel

end Program

end AffineKernel
