import AffineKernel.Build.Materialize
import AffineKernel.Proofs.Semantics.Fitting
import AffineKernel.Proofs.Semantics.Operations

/-!
# Loops and conditionals

A loop runs its body for `low`, `low + step` and so on, as long as this is below
`high`: `counters` are these numbers, in order. What one run of the body does to
a state is repeated by the loop for each of them (`Machine.iterate_realizes`),
and this is what the operation of a loop does, whose bounds are literals or the
values of operands (`Machine.loop_realizes`). A conditional enters its body once
if its operand is one, and otherwise does nothing (`Machine.runOp_test`,
`Machine.conditional_realizes`).

The state may be anything that a relation ties to the heap: the frame of the
operation is the same after each iteration.
-/

set_option autoImplicit false

namespace AffineKernel

/-- The numbers `low`, `low + step` and so on below `high`. -/
def counters (low high step : Int) : List Int :=
  if low < high ∧ 0 < step then low :: counters (low + step) high step else []
termination_by (high - low).toNat
decreasing_by omega

/-- A loop variable is in the range of its loop. -/
theorem mem_counters {low high step number : Int} (listed : number ∈ counters low high step) :
    low ≤ number ∧ number < high := by
  fun_induction counters low high step with
  | case1 low below ih =>
      rcases List.mem_cons.mp listed with rfl | later
      · exact ⟨by omega, below.1⟩
      · have := ih later
        omega
  | case2 low => simp at listed

/-! ## Bounds -/

namespace BuildM

/-- A bound of a loop has a number in a frame: its literal, or the value of its operand. -/
inductive LoopBound.Denotes (frame : Frame) : LoopBound → Int → Prop where
  | constant (value : Int64) : Denotes frame ⟨.constant value, none⟩ value.toInt
  | operand {value : Value} {number : Int} (found : frame.find? value = some (.scalar (.int number)))
      (fits : (Scalar.int number).Fits .index) : Denotes frame ⟨.identity 1, some value⟩ number

/-- The attributes of a loop. -/
def loopAttributes (lower upper : LoopBound) (spec : LoopSpec) : List (String × Attribute) :=
  [("lower_bound", Attribute.affineMap lower.map), ("upper_bound", .affineMap upper.map),
    ("step", .index (Int64.ofNat (max spec.step 1)))] ++
  spec.name.toList.map (fun name => ("loop_name", .str name)) ++
  spec.stage.toList.map (fun stage => ("op_name", .str stage)) ++
  (if spec.reduction then [("reduction", .unit)] else [])

end BuildM

/-- The numbers of the type `index` are the words. -/
theorem fits_index_iff {number : Int} :
    (Scalar.int number).Fits .index ↔ -2 ^ 63 ≤ number ∧ number < 2 ^ 63 := by
  have normal : normalize number .index = number.bmod (2 ^ 64) := rfl
  constructor
  · rintro ⟨-, same⟩
    rw [normal] at same
    have least := Int.le_bmod (x := number) (m := 2 ^ 64) (by decide)
    have greatest := Int.bmod_lt (x := number) (m := 2 ^ 64) (by decide)
    omega
  · rintro ⟨least, greatest⟩
    refine ⟨rfl, ?_⟩
    rw [normal]
    exact Int.bmod_eq_of_le (by omega) (by omega)

theorem toInt_ofInt_of_fits {number : Int} (fits : (Scalar.int number).Fits .index) :
    (Int64.ofInt number).toInt = number := by
  rw [Int64.toInt_ofInt]
  exact fits.2

/-- The condition of a conditional is that its operand is one. -/
theorem isOne_contains {number : Int} (fits : (Scalar.int number).Fits .index) :
    IntegerSet.isOne.contains (([number].map Int64.ofInt).take IntegerSet.isOne.dims)
      (([number].map Int64.ofInt).drop IntegerSet.isOne.dims) = some (decide (number = 1)) := by
  have evaluated : (AffineExpr.sub (.dim 0) (.constant 1)).eval [Int64.ofInt number] [] =
      some (Int64.ofInt number + -1) := rfl
  have zero : Int64.ofInt number + -1 = 0 ↔ number = 1 := by
    constructor
    · intro cancels
      have word : Int64.ofInt number = 1 := by
        have moved := congrArg (· + 1) cancels
        simpa [Int64.add_assoc] using moved
      rw [← toInt_ofInt_of_fits fits, word]
      rfl
    · rintro rfl
      rfl
  simp only [IntegerSet.isOne, IntegerSet.contains, IntegerSet.satisfies, Constraint.expr,
    List.map_cons, List.map_nil, List.take_succ_cons, List.take_zero, List.drop_succ_cons,
    List.drop_zero, evaluated, Constraint.holds, zero]
  split <;> simp_all

/-- The condition of a conditional has no remainder. -/
theorem isOne_overflows (dims symbols : List Int64) :
    IntegerSet.isOne.overflows dims symbols = false := by
  have difference : (AffineExpr.sub (.dim 0) (.constant 1)).overflows dims symbols = false := by
    have built : AffineExpr.sub (.dim 0) (.constant 1) = .binary .add (.dim 0) (.constant (-1)) := rfl
    rw [built]
    cases first : dims[0]? <;>
      simp [AffineExpr.overflows, AffineExpr.eval, AffineOp.overflows, first]
  simp [IntegerSet.overflows, IntegerSet.isOne, IntegerSet.overflowsAmong, Constraint.expr,
    difference]

namespace BuildM.LoopBound.Denotes

variable {frame : Frame} {bound : LoopBound} {number : Int}

/-- The number of a bound is a word. -/
theorem fits (denotes : bound.Denotes frame number) : (Scalar.int number).Fits .index := by
  cases denotes with
  | constant value => exact fits_index_iff.mpr ⟨value.le_toInt, value.toInt_lt⟩
  | operand found fits => exact fits

/-- The map of a bound, applied to its operands, yields its number. -/
theorem evaluates (denotes : bound.Denotes frame number) :
    ∃ (numbers : List Int) (word : Int64), bound.operand.toList.map frame.find? =
        numbers.map (fun number => some (.scalar (.int number))) ∧
      bound.map.dims + bound.map.symbols = bound.operand.toList.length ∧
      word.toInt = number ∧
      bound.map.overflows ((numbers.map Int64.ofInt).take bound.map.dims)
        ((numbers.map Int64.ofInt).drop bound.map.dims) = false ∧
      bound.map.eval ((numbers.map Int64.ofInt).take bound.map.dims)
        ((numbers.map Int64.ofInt).drop bound.map.dims) = some [word] := by
  cases denotes with
  | constant value => exact ⟨[], value, rfl, rfl, rfl, rfl, rfl⟩
  | operand found fits =>
      refine ⟨[number], Int64.ofInt number, ?_, rfl, toInt_ofInt_of_fits fits, rfl, rfl⟩
      simp [found]

end BuildM.LoopBound.Denotes

namespace Machine

/-! ## Iteration -/

theorem counter_succ (low step : Int) (position : Nat) :
    low + ((position + 1 : Nat) : Int) * step = low + step + position * step := by
  rw [Int.natCast_add, Int.add_mul]
  simp only [Int.natCast_one, Int.one_mul]
  omega

theorem iterations_of_lt {low high step : Int} (less : low < high) (positive : 0 < step) :
    iterations low high step = iterations (low + step) high step + 1 := by
  have first : (high - low + step - 1) / step = (high - low - 1) / step + 1 := by
    rw [show high - low + step - 1 = high - low - 1 + step by omega,
      Int.add_ediv_of_dvd_right (Int.dvd_refl step), Int.ediv_self (by omega)]
  have nonneg : 0 ≤ (high - low - 1) / step := Int.ediv_nonneg (by omega) (by omega)
  rw [iterations, if_pos less, first, iterations]
  by_cases more : low + step < high
  · rw [if_pos more, show high - (low + step) + step - 1 = high - low - 1 by omega]
    omega
  · have last : (high - low - 1) / step = 0 := Int.ediv_eq_zero_of_lt (by omega) (by omega)
    rw [if_neg more, last]
    rfl

theorem iterations_of_le {low high step : Int} (done : high ≤ low) :
    iterations low high step = 0 := by
  rw [iterations, if_neg (by omega)]

/-- A counter is below the upper bound. -/
theorem counter_lt {step high : Int} (positive : 0 < step) :
    ∀ {position : Nat} {low : Int}, position < iterations low high step →
      low + position * step < high := by
  intro position
  induction position with
  | zero =>
      intro low small
      by_cases less : low < high
      · simpa using less
      · rw [iterations_of_le (by omega)] at small
        exact absurd small (Nat.not_lt_zero 0)
  | succ position ih =>
      intro low small
      by_cases less : low < high
      · rw [iterations_of_lt less positive] at small
        rw [counter_succ]
        exact ih (Nat.lt_of_succ_lt_succ small)
      · rw [iterations_of_le (by omega)] at small
        exact absurd small (Nat.not_lt_zero _)

/-- A loop does not count beyond the words if a counter below its upper bound can be increased. -/
theorem LoopRange.overflows_eq_false {range : LoopRange} (positive : 0 < range.step)
    (low : range.low < 2 ^ 63) (high : range.high + range.step ≤ 2 ^ 63) :
    range.overflows = false := by
  rw [LoopRange.overflows, decide_eq_false_iff_not, Int.not_le]
  cases count : iterations range.low range.high range.step with
  | zero => simpa using low
  | succ before =>
      have below : range.low + before * range.step < range.high :=
        counter_lt positive (count ▸ Nat.lt_succ_self before)
      rw [counter_succ]
      omega

variable {σ : Type} {good : σ → Machine → Prop}

/-- What the body of a loop does to a state is repeated for each value of the loop variable. -/
theorem iterate_realizes {body : Int → Exec Unit} {effect : σ → Int → Except Fault σ}
    {low high step : Int} (positive : 0 < step)
    (each : ∀ number state machine, number ∈ counters low high step → good state machine →
      Realizes (body number machine) (effect state number) fun next _ last => good next last)
    {state : σ} {machine : Machine} (start : good state machine) :
    Realizes (iterate body step (iterations low high step) low machine)
      ((counters low high step).foldlM effect state) fun next _ last => good next last := by
  fun_induction counters low high step generalizing state machine with
  | case1 low below ih =>
      rw [iterations_of_lt below.1 positive, iterate, List.foldlM_cons]
      refine (each low state machine (by simp) start).bind fun next _ last _ reached => ?_
      refine ih (fun number state machine listed holds => ?_) reached
      exact each number state machine (List.mem_cons_of_mem _ listed) holds
  | case2 low stops =>
      rw [iterations_of_le (by omega)]
      exact .of_ok start

/-! ## The operations -/

theorem checked_realizes (site : Site) (overflows : Bool) (machine : Machine) :
    Realizes (site.checked overflows machine) (Meaning.checked overflows)
      fun _ _ after => after = machine :=
  ⟨Meaning.checked_ne_meaningless overflows, site.checked_delivers overflows machine⟩

/-- Runs a block without arguments, and goes on after it unless it has returned. -/
def enterOnce (run : RunBlock) (body : BlockId) (frame : Frame) : Exec Step := do
  match ← run body [] frame with
  | some values => return .returned values
  | none => return .next frame

section Found

variable {module : Module} {id : OpId} {op : Operation} {frame : Frame} {machine : Machine}
  {body : BlockId} {block : Block} (found : module.op? id = some op)
include found

theorem runOp_loop {run : RunBlock} (kind : op.kind = .affineFor) :
    runOp module run id frame = runLoop run (site found) frame >>= fun _ => pure (.next frame) := by
  rw [runOp, found, require_some, pure_bind]
  simp only [kind]

/-- A loop over known bounds is an iteration, after which the counter is a word. -/
theorem runLoop_eq {run : RunBlock} {lower upper : BuildM.LoopBound} {spec : BuildM.LoopSpec}
    (operands : op.operands = lower.operand.toList ++ upper.operand.toList)
    (attributes : op.attributes = BuildM.loopAttributes lower upper spec)
    (regions : op.regions = [body]) (small : spec.step < 2 ^ 63) {low high : Int}
    (lowDenotes : lower.Denotes frame low) (highDenotes : upper.Denotes frame high) :
    runLoop run (site found) frame = (do
      iterate (fun number => do let _ ← run body [.scalar (.int number)] frame) (max spec.step 1)
        (iterations low high (max spec.step 1)) low
      (site found).checked (LoopRange.overflows ⟨low, high, max spec.step 1⟩)) := by
  obtain ⟨lowNumbers, lowWord, lowFound, split, lowValue, lowFits, lowEval⟩ :=
    lowDenotes.evaluates
  obtain ⟨highNumbers, highWord, highFound, -, highValue, highFits, highEval⟩ :=
    highDenotes.evaluates
  have lowAttr : ((site found).op.attr? "lower_bound").bind Attribute.asMap? = some lower.map := by
    rw [Operation.attr?, attributes]
    rfl
  have highAttr : ((site found).op.attr? "upper_bound").bind Attribute.asMap? = some upper.map := by
    rw [Operation.attr?, attributes]
    rfl
  have stepAttr : ((site found).op.attr? "step").bind Attribute.asInt? =
      some (Int64.ofNat (max spec.step 1)) := by
    rw [Operation.attr?, attributes]
    rfl
  have step : (Int64.ofNat (max spec.step 1)).toInt = max (spec.step : Int) 1 := by
    rw [Int64.toInt_ofNat_of_lt (by omega)]
    omega
  have lowWords : op.operands.take (lower.map.dims + lower.map.symbols) = lower.operand.toList := by
    rw [operands, split, List.take_left']
    rfl
  have highWords : op.operands.drop (lower.map.dims + lower.map.symbols) =
      upper.operand.toList := by
    rw [operands, split, List.drop_left']
    rfl
  simp only [runLoop, Site.loopRange, Site.attr_eq lowAttr, Site.attr_eq highAttr,
    Site.attr_eq stepAttr, pure_bind, lowWords, highWords, Site.words_eq lowFound,
    Site.words_eq highFound, Site.evalMap, Site.checked_eq lowFits, Site.checked_eq highFits,
    lowEval, highEval, Site.defined, regions, step, require, List.head?_cons]
  simp [lowValue, highValue]

/-- A loop does to a state what its body does, for each value of the loop variable in order; it
fails in the end if its counter is no word. -/
theorem loop_realizes {depth : Nat} {lower upper : BuildM.LoopBound} {spec : BuildM.LoopSpec}
    (kind : op.kind = .affineFor)
    (operands : op.operands = lower.operand.toList ++ upper.operand.toList)
    (attributes : op.attributes = BuildM.loopAttributes lower upper spec)
    (regions : op.regions = [body]) (listed : module.block? body = some block)
    (small : spec.step < 2 ^ 63) {low high : Int}
    (lowDenotes : lower.Denotes frame low) (highDenotes : upper.Denotes frame high)
    {effect : σ → Int → Except Fault σ}
    (each : ∀ number state machine, number ∈ counters low high (max spec.step 1) →
      good state machine →
      Realizes (advance (runOp module (runBlock module depth)) block.ops
          (frame.enter body [.scalar (.int number)]) machine)
        (effect state number) fun next _ last => good next last)
    {state : σ} (start : good state machine) :
    Realizes (runOp module (runBlock module (depth + 1)) id frame machine)
      (do
        let next ← (counters low high (max spec.step 1)).foldlM effect state
        Meaning.checked (LoopRange.overflows ⟨low, high, max spec.step 1⟩)
        return next)
      fun next step last => step = .next frame ∧ good next last := by
  rw [runOp_loop found kind,
    runLoop_eq found operands attributes regions small lowDenotes highDenotes]
  have whole : Realizes
      (iterate (fun number => do
          let _ ← runBlock module (depth + 1) body [.scalar (.int number)] frame)
        (max spec.step 1) (iterations low high (max spec.step 1)) low machine)
      ((counters low high (max spec.step 1)).foldlM effect state)
      fun next _ last => good next last := by
    refine iterate_realizes (by omega) (fun number state machine inside holds => ?_) start
    have once := each number state machine inside holds
    rw [← bind_pure (effect state number)]
    simp only [runBlock, listed, require, pure_bind, runOps_eq, bind_map_left]
    exact once.bind fun next step last _ reached => .of_ok reached
  rw [bind_assoc]
  refine whole.bind fun next _ last _ reached => ?_
  refine (checked_realizes (site found) _ last).bind ?_
  rintro - - after - rfl
  exact .of_ok ⟨rfl, reached⟩

/-- A loop whose counter is a word in the end does not fail by it. -/
theorem loop_realizes_of_contained {depth : Nat} {lower upper : BuildM.LoopBound}
    {spec : BuildM.LoopSpec} (kind : op.kind = .affineFor)
    (operands : op.operands = lower.operand.toList ++ upper.operand.toList)
    (attributes : op.attributes = BuildM.loopAttributes lower upper spec)
    (regions : op.regions = [body]) (listed : module.block? body = some block)
    (small : spec.step < 2 ^ 63) {low high : Int}
    (lowDenotes : lower.Denotes frame low) (highDenotes : upper.Denotes frame high)
    (contained : high + max (spec.step : Int) 1 ≤ 2 ^ 63) {effect : σ → Int → Except Fault σ}
    (each : ∀ number state machine, number ∈ counters low high (max spec.step 1) →
      good state machine →
      Realizes (advance (runOp module (runBlock module depth)) block.ops
          (frame.enter body [.scalar (.int number)]) machine)
        (effect state number) fun next _ last => good next last)
    {state : σ} (start : good state machine) :
    Realizes (runOp module (runBlock module (depth + 1)) id frame machine)
      ((counters low high (max spec.step 1)).foldlM effect state)
      fun next step last => step = .next frame ∧ good next last := by
  have positive : 0 < max (spec.step : Int) 1 := by omega
  have fits : LoopRange.overflows ⟨low, high, max spec.step 1⟩ = false :=
    LoopRange.overflows_eq_false positive (fits_index_iff.mp lowDenotes.fits).2 contained
  have realizes := loop_realizes found kind operands attributes regions listed small lowDenotes
    highDenotes each start
  rw [fits] at realizes
  exact bind_pure (m := Except Fault) (List.foldlM ..) ▸ realizes

theorem runOp_conditional {run : RunBlock} (kind : op.kind = .affineIf) :
    runOp module run id frame = runConditional run (site found) frame >>= fun outcome =>
      match outcome with
      | some values => pure (.returned values)
      | none => pure (.next frame) := by
  rw [runOp, found, require_some, pure_bind]
  obtain ⟨sort⟩ := op
  obtain rfl : sort = .affineIf := kind
  rfl

/-- A conditional on an operand runs its block if the operand is one. -/
theorem runConditional_eq {run : RunBlock} {value : Value} (operands : op.operands = [value])
    (attributes : op.attributes = [("condition", .integerSet .isOne)])
    (regions : op.regions = [body]) {number : Int}
    (known : frame.find? value = some (.scalar (.int number)))
    (fits : (Scalar.int number).Fits .index) :
    runConditional run (site found) frame =
      if number = 1 then run body [] frame else pure none := by
  have attr : ((site found).op.attr? "condition").bind Attribute.asSet? = some .isOne := by
    rw [Operation.attr?, attributes]
    rfl
  have holds : op.operands.map frame.find? =
      [number].map fun number => some (.scalar (.int number)) := by
    simp [operands, known]
  have member : IntegerSet.isOne.contains (([number].map Int64.ofInt).take IntegerSet.isOne.dims)
      (([number].map Int64.ofInt).drop IntegerSet.isOne.dims) = some (decide (number = 1)) :=
    isOne_contains fits
  simp only [runConditional, Site.branch, Site.attr_eq attr, Site.words_eq holds, pure_bind,
    Site.checked_eq (isOne_overflows _ _), member, Site.defined, regions]
  by_cases one : number = 1
  · simp only [one, decide_true, ↓reduceIte, List.getElem?_cons_zero]
  · simp only [one, decide_false, Bool.false_eq_true, ↓reduceIte, List.getElem?_cons_succ,
      List.getElem?_nil]

/-- A conditional on an operand enters its block once if the operand is one, and does nothing if it
is not. -/
theorem runOp_test {run : RunBlock} {value : Value} (kind : op.kind = .affineIf)
    (operands : op.operands = [value])
    (attributes : op.attributes = [("condition", .integerSet .isOne)])
    (regions : op.regions = [body]) {number : Int}
    (known : frame.find? value = some (.scalar (.int number)))
    (fits : (Scalar.int number).Fits .index) :
    runOp module run id frame =
      if number = 1 then enterOnce run body frame else pure (.next frame) := by
  rw [runOp_conditional found kind,
    runConditional_eq found operands attributes regions known fits]
  by_cases one : number = 1
  · rw [if_pos one, if_pos one]
    rfl
  · rw [if_neg one, if_neg one, pure_bind]

/-- A conditional does to a state what its body does, if its operand is one. -/
theorem conditional_realizes {depth : Nat} {value : Value} (kind : op.kind = .affineIf)
    (operands : op.operands = [value])
    (attributes : op.attributes = [("condition", .integerSet .isOne)])
    (regions : op.regions = [body]) (listed : module.block? body = some block) {number : Int}
    (known : frame.find? value = some (.scalar (.int number)))
    (fits : (Scalar.int number).Fits .index) {effect : σ → Except Fault σ} {state : σ}
    (taken : number = 1 → good state machine →
      Realizes (advance (runOp module (runBlock module depth)) block.ops
          (frame.enter body []) machine)
        (effect state) fun next step last => step.values? = none ∧ good next last)
    (start : good state machine) :
    Realizes (runOp module (runBlock module (depth + 1)) id frame machine)
      (if number = 1 then effect state else .ok state)
      fun next step last => step = .next frame ∧ good next last := by
  rw [runOp_conditional found kind,
    runConditional_eq found operands attributes regions known fits]
  by_cases one : number = 1
  · have once := taken one start
    rw [if_pos one, if_pos one, ← bind_pure (effect state)]
    simp only [runBlock, listed, require, pure_bind, runOps_eq, bind_map_left]
    refine once.bind fun next step last _ reached => ?_
    rw [reached.1]
    exact .of_ok ⟨rfl, reached.2⟩
  · rw [if_neg one, if_neg one, pure_bind]
    exact .of_ok ⟨rfl, start⟩

end Found

end Machine

end AffineKernel
