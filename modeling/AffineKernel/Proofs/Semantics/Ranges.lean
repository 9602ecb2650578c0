import AffineKernel.Proofs.Semantics.Activations

/-!
# Loops over ranges

A loop runs its body for the numbers of its range: those that come from the
lower bound in steps and are below the upper bound (`mem_counters_iff`), from
the least to the greatest (`pairwise_counters`). For each of them the body is
run once, in the frame of the loop, and nothing else is done
(`Machine.runOp_range`); the first failure is the last that is done
(`Machine.forM_error`).
-/

set_option autoImplicit false

namespace AffineKernel

variable {low high step : Int}

/-! ## Ranges -/

/-- The numbers of a range come from its lower bound in steps. -/
theorem mem_counters_iff (positive : 0 < step) {number : Int} :
    number ∈ counters low high step ↔
      ∃ position : Nat, number = low + position * step ∧ number < high := by
  fun_induction counters low high step with
  | case1 low below ih =>
      rw [List.mem_cons, ih]
      constructor
      · rintro (rfl | ⟨position, rfl, less⟩)
        · exact ⟨0, by simp, below.1⟩
        · exact ⟨position + 1, (Machine.counter_succ low step position).symm, less⟩
      · rintro ⟨position, rfl, less⟩
        cases position with
        | zero => exact .inl (by simp)
        | succ position => exact .inr ⟨position, Machine.counter_succ low step position, less⟩
  | case2 low stops =>
      have above : high ≤ low := by omega
      constructor
      · simp
      · rintro ⟨position, rfl, less⟩
        have nonneg : 0 ≤ (position : Int) * step :=
          Int.mul_nonneg (Int.natCast_nonneg position) (Int.le_of_lt positive)
        omega

/-- A range is counted upwards. -/
theorem pairwise_counters (low high step : Int) : (counters low high step).Pairwise (· < ·) := by
  fun_induction counters low high step with
  | case1 low below ih =>
      rw [List.pairwise_cons]
      refine ⟨fun number later => ?_, ih⟩
      have := mem_counters later
      omega
  | case2 low stops => exact .nil

namespace Machine

/-- An iteration over the numbers of a range. -/
theorem iterate_eq_forM (body : Int → Exec Unit) (positive : 0 < step) :
    iterate body step (iterations low high step) low =
      forM (counters low high step) body := by
  fun_induction counters low high step with
  | case1 low below ih =>
      rw [iterations_of_lt below.1 positive, iterate, ih, List.forM_cons]
  | case2 low stops =>
      rw [iterations_of_le (by omega)]
      rfl

/-- Runs a block for a number, and drops what it returns. -/
def enterFor (run : RunBlock) (body : BlockId) (frame : Frame) (number : Int) : Exec Unit := do
  let _ ← run body [.scalar (.int number)] frame

/-- What is done for the numbers of a list ends with the first failure. -/
theorem forM_error {action : Int → Exec Unit} {before after : List Int} {number : Int}
    {machine middle last : Machine} {error : RunError}
    (passed : forM before action machine = .ok () middle)
    (failed : action number middle = .error error last) :
    forM (before ++ number :: after) action machine = .error error last := by
  rw [List.forM_append, List.forM_cons]
  exact bind_eq_error.mpr (.inr ⟨(), middle, passed, bind_eq_error.mpr (.inl failed)⟩)

section Found

variable {module : Module} {run : RunBlock} {id : OpId} {op : Operation} {frame : Frame}
  {body : BlockId} {lower upper : BuildM.LoopBound} {spec : BuildM.LoopSpec}

/-- A loop over known bounds runs its block for the numbers of its range, if a number below the upper
bound can be increased. -/
theorem runOp_range (found : module.op? id = some op) (kind : op.kind = .affineFor)
    (operands : op.operands = lower.operand.toList ++ upper.operand.toList)
    (attributes : op.attributes = BuildM.loopAttributes lower upper spec)
    (regions : op.regions = [body]) (small : spec.step < 2 ^ 63)
    (lowDenotes : lower.Denotes frame low) (highDenotes : upper.Denotes frame high)
    (contained : high + max (spec.step : Int) 1 ≤ 2 ^ 63) :
    runOp module run id frame =
      forM (counters low high (max spec.step 1)) (enterFor run body frame) >>= fun _ =>
        pure (.next frame) := by
  have positive : 0 < max (spec.step : Int) 1 := by omega
  have fits : LoopRange.overflows ⟨low, high, max spec.step 1⟩ = false :=
    LoopRange.overflows_eq_false positive (fits_index_iff.mp lowDenotes.fits).2 contained
  rw [runOp_loop found kind, runLoop_eq found operands attributes regions small lowDenotes
    highDenotes, Site.checked_eq fits, iterate_eq_forM _ positive]
  exact congrArg (· >>= _) (bind_pure _)

end Found

end Machine

end AffineKernel
