import AffineKernel.Build.Access
import AffineKernel.Build.Lowering
import AffineKernel.Build.Promotion
import AffineKernel.Proofs.Build.Outcome

/-!
# Refusals

Some failures of building go away if the node is built at another time: then its
loop variables are bound, its tensors have storage, or the loops of its reduction
can be opened. They are called premature (`BuildError.isPremature`). The others
refuse what was asked for, whenever it is asked for. The checks of types, the
choice of operations and the reading of indices only ever refuse.
-/

set_option autoImplicit false

namespace AffineKernel

/-- Whether a failure says that a node was built before it could be: a loop variable was not bound,
a tensor had no storage, or the nest of a reduction could not be made. -/
def BuildError.isPremature : BuildError → Bool
  | .unboundLoopVar .. | .unboundTensor .. | .missingAxisBounds .. | .reductionType .. => true
  | _ => false

variable {α β : Type}

/-! ## Checks -/

/-- A check fails only by a refusal. -/
def Refuses (checked : Except BuildError α) : Prop :=
  ∀ error, checked = .error error → error.isPremature = false

namespace Refuses

theorem ok (a : α) : Refuses (.ok a) := by
  rintro error ⟨⟩

theorem error {error : BuildError} (proper : error.isPremature = false) :
    Refuses (.error error : Except BuildError α) := by
  rintro _ ⟨⟩
  exact proper

theorem bind {first : Except BuildError α} {next : α → Except BuildError β}
    (refuses : Refuses first) (later : ∀ a, Refuses (next a)) : Refuses (first >>= next) := by
  cases first with
  | ok a => exact later a
  | error failure => exact .error (refuses failure rfl)

end Refuses

theorem BinaryKind.lower_refuses (kind : BinaryKind) (dtype : DType) :
    Refuses (kind.lower dtype) := by
  cases kind <;> cases sort : dtype.category <;> simp only [BinaryKind.lower, sort] <;>
    first | exact .ok _ | exact .error rfl

namespace Promotion

theorem rankOf_refuses (dtype : DType) : Refuses (rankOf dtype) := by
  unfold rankOf
  cases dtype.rank with
  | ok rank => exact .ok rank
  | error error => exact .error rfl

theorem castTarget_refuses (high low : DType) : Refuses (castTarget high low) := by
  cases high with
  | fixed | ufixed =>
      simp only [castTarget]
      split
      · exact .ok _
      split
      · exact .ok _
      · exact .error rfl
  | float16 => exact .error rfl
  | int | uint | index | float32 | float64 => exact .ok _

theorem byRank_refuses (lhs rhs : DType) : Refuses (byRank lhs rhs) := by
  refine .bind (rankOf_refuses lhs) fun left => .bind (rankOf_refuses rhs) fun right => ?_
  split
  · exact .ok _
  split
  · exact .bind (castTarget_refuses _ _) fun _ => .ok _
  · exact .bind (castTarget_refuses _ _) fun _ => .ok _

theorem regularize_refuses (lhs rhs : DType) : Refuses (regularize lhs rhs) := by
  unfold regularize
  split
  · exact .ok _
  split
  · exact .error rfl
  split
  · exact .error rfl
  · exact .ok _

theorem arithmetic_refuses (lhs rhs : DType) : Refuses (arithmetic lhs rhs) :=
  .bind (byRank_refuses lhs rhs) fun _ => regularize_refuses _ _

theorem checkBits_refuses (kind : BinaryKind) (dtype : DType) : Refuses (checkBits kind dtype) := by
  unfold checkBits
  split
  · exact .error rfl
  split
  · exact .error rfl
  · exact .ok _

theorem bitwise_refuses (kind : BinaryKind) (lhs rhs : DType) : Refuses (bitwise kind lhs rhs) :=
  .bind (checkBits_refuses kind lhs) fun _ => .bind (checkBits_refuses kind rhs) fun _ => .ok _

end Promotion

/-! ## Accesses -/

namespace Extraction

/-- Whatever was collected before, a reading fails only by a refusal. -/
def Refuses (reading : Extraction α) : Prop :=
  ∀ found error refs, reading found = .error error refs → error.isPremature = false

theorem Refuses.pure (a : α) : Refuses (Pure.pure a) := by
  rintro found error refs ⟨⟩

theorem Refuses.refuse (reason : String) : Refuses (refuse reason : Extraction α) := by
  rintro found error refs ⟨⟩
  rfl

theorem Refuses.bind {first : Extraction α} {next : α → Extraction β} (refuses : Refuses first)
    (later : ∀ a, Refuses (next a)) : Refuses (first >>= next) := by
  intro found error refs failed
  simp only [Bind.bind, EStateM.bind] at failed
  cases outcome : first found with
  | ok a middle =>
      rw [outcome] at failed
      exact later a middle error refs failed
  | error other middle =>
      rw [outcome] at failed
      cases failed
      exact refuses found error refs outcome

theorem slot_refuses (ref : LoopRef) : Refuses (slot ref) := by
  intro found error refs failed
  rw [slot, EStateM.get_bind_apply] at failed
  cases place : found.findIdx? (fun seen => decide (seen.id = ref.id)) with
  | some known =>
      rw [place] at failed
      cases failed
  | none =>
      rw [place] at failed
      cases failed

theorem join_refuses (kind : BinaryKind) (lhs rhs : AffineExpr) : Refuses (join kind lhs rhs) := by
  unfold join
  split
  · exact .refuse _
  split
  · exact .refuse _
  · dsimp only
    split
    · exact .pure _
    · exact .refuse _

theorem index_refuses : ∀ expr : Expr, Refuses (index expr)
  | .loopVar .. | .axis .. => .bind (slot_refuses _) fun _ => .pure _
  | .constant _ _ (.int _) => .pure _
  | .constant _ _ (.float _) => .refuse _
  | .cast _ _ source => index_refuses source
  | .binary _ _ _ lhs rhs =>
      .bind (index_refuses lhs) fun _ => .bind (index_refuses rhs) fun _ => join_refuses _ _ _
  | .unary .. | .compare .. | .load .. | .store .. | .select .. | .call .. | .getBit ..
  | .reduce .. => .refuse _

theorem access_refuses (exprs : List Expr) : Refuses (access exprs) := by
  have read : Refuses (exprs.mapM index) := by
    induction exprs with
    | nil => exact .pure _
    | cons expr rest ih =>
        rw [List.mapM_cons]
        exact .bind (index_refuses expr) fun _ => .bind ih fun _ => .pure _
  have collected : Refuses (get : Extraction (List LoopRef)) := by
    rintro found error refs ⟨⟩
  have cleared : Refuses (set ([] : List LoopRef) : Extraction PUnit) := by
    rintro found error refs ⟨⟩
  exact .bind cleared fun _ => .bind read fun _ => .bind collected fun _ => .pure _

end Extraction

end AffineKernel
