import AffineKernel.Proofs.Modes.Trees
import AffineKernel.Proofs.Semantics.Operations

/-!
# Operations on equal operands

Operations of two modules that are of one kind, with the same attributes and
types of results, and whose operands are of the same types and stand for the same
data, do the same. For an operation that computes a scalar this means the same
scalar, and for one that acts the same range, branch, element or buffer. It is
said of two runs that both succeed (`Machine.Agrees`), each in a frame of its
own; the heaps may differ, but for the buffer that is read
(`Site.Alike.value_agrees`).
-/

set_option autoImplicit false

namespace AffineKernel

/-- Whether operations of a kind compute a scalar. -/
def OpKind.computes : OpKind → Bool
  | .func | .ret | .yield | .call | .alloc | .store | .affineFor | .affineIf => false
  | _ => true

theorem Operation.computes_of_isPure {op : Operation} (pure : op.isPure = true) :
    op.kind.computes = true := by
  unfold Operation.isPure OpKind.isPure at pure
  cases kind : op.kind <;> first | rfl | (rw [kind] at pure; cases pure)

namespace Machine

variable {α β γ δ : Type}

/-- If both actions succeed, their results are related, and no heap has changed. -/
def Agrees (relates : α → β → Prop) (first : Exec α) (second : Exec β) : Prop :=
  ∀ machine other, Both first second machine other fun a b after final =>
    relates a b ∧ after.heap = machine.heap ∧ final.heap = other.heap

namespace Agrees

variable {relates : α → β → Prop} {good : γ → δ → Prop}

theorem pure {a : α} {b : β} (related : relates a b) :
    Agrees relates (pure a : Exec α) (Pure.pure b) := fun _ _ =>
  (both_pure a b).mpr ⟨related, rfl, rfl⟩

theorem throw_left (error : RunError) (second : Exec β) :
    Agrees relates (throw error : Exec α) second := fun _ _ => Both.throw_left error second

theorem throw_right (first : Exec α) (error : RunError) :
    Agrees relates first (throw error : Exec β) := fun _ _ => Both.throw_right first error

theorem bind {first : Exec γ} {second : Exec δ} {next : γ → Exec α} {further : δ → Exec β}
    (start : Agrees good first second)
    (rest : ∀ c d, good c d → Agrees relates (next c) (further d)) :
    Agrees relates (first >>= next) (second >>= further) := by
  intro machine other
  rw [both_bind]
  refine (start machine other).mono ?_
  rintro c d middle between ⟨related, kept, alsoKept⟩
  refine (rest c d related middle between).mono ?_
  rintro a b after final ⟨related, same, alsoSame⟩
  exact ⟨related, same.trans kept, alsoSame.trans alsoKept⟩

/-- The same optional result. -/
theorem require (found : Option α) : Agrees Eq (require found) (Machine.require found) := by
  cases found with
  | none => exact throw_left _ _
  | some a => exact .pure rfl

end Agrees

/-! ## Operands -/

/-- Values of two modules that are of the same type, and stand for the same datum where both
stand for one. -/
structure Kin (module other : Module) (frame twin : Frame) (value partner : Value) : Prop where
  datum : ∀ first second, frame.find? value = some first → twin.find? partner = some second →
    first = second
  type : module.valueType? value = other.valueType? partner

variable {module other : Module} {frame twin : Frame}

theorem lookup_agrees {value partner : Value} (kin : Kin module other frame twin value partner) :
    Agrees Eq (lookup frame value) (lookup twin partner) := by
  unfold lookup
  cases here : frame.find? value with
  | none => exact .throw_left _ _
  | some first =>
      cases there : twin.find? partner with
      | none => exact .throw_right _ _
      | some second => exact .pure (kin.datum first second here there)

theorem lookups_agree {values partners : List Value}
    (kin : List.Forall₂ (Kin module other frame twin) values partners) :
    Agrees Eq (values.mapM (lookup frame)) (partners.mapM (lookup twin)) := by
  induction kin with
  | nil => exact .pure rfl
  | cons first _ ih =>
      rw [List.mapM_cons, List.mapM_cons]
      refine (lookup_agrees first).bind fun datum _ same => ?_
      subst same
      refine ih.bind fun data _ same => ?_
      subst same
      exact .pure rfl

/-- What stands in the same place of two lists is related as the lists are. -/
theorem related_of_getElem? {relates : α → β → Prop} {items : List α} {others : List β}
    (paired : List.Forall₂ relates items others) {position : Nat} {a : α} {b : β}
    (listed : items[position]? = some a) (known : others[position]? = some b) : relates a b := by
  induction paired generalizing position with
  | nil => cases listed
  | cons first _ ih =>
      cases position with
      | zero =>
          cases listed
          cases known
          exact first
      | succ position => exact ih listed known

/-- An element of a buffer of the heap. -/
def element (handle : Nat) (indices : List Int64) : Exec Scalar := do
  let buffer ← require (← get).heap[handle]?
  match buffer.get? indices with
  | some scalar => return scalar
  | none => throw (.outOfBounds indices buffer.shape)

/-- A load finds its buffer and its indices, and reads the element. -/
theorem Site.load_eq (site : Site) (frame : Frame) : site.load frame = (do
    let handle ← (do site.buffer frame (← site.operand 0))
    let indices ← site.access frame (site.op.operands.drop 1)
    element handle indices) := by
  simp only [Site.load, bind_assoc]
  rfl

/-- A store finds its element, its buffer and its indices, and puts the element into its place. -/
theorem Site.store_eq (site : Site) (frame : Frame) : site.store frame = (do
    let scalar ← (do site.scalar frame (← site.operand 0))
    let handle ← (do site.buffer frame (← site.operand 1))
    let indices ← site.access frame (site.op.operands.drop 2)
    let shape ← shapeOf handle
    match Buffer.offset? shape indices with
    | some offset => putElement handle offset scalar
    | none => throw (.outOfBounds indices shape)) := by
  rw [Site.store, bind_assoc]
  exact bind_congr fun value => bind_congr fun scalar => (bind_assoc ..).symm

/-- Operations of one kind, with the same attributes, types of results and data of operands. -/
structure Site.Alike (first second : Site) (frame twin : Frame) : Prop where
  kind : first.op.kind = second.op.kind
  attributes : first.op.attributes = second.op.attributes
  results : first.op.results = second.op.results
  operands : List.Forall₂ (Kin first.module second.module frame twin) first.op.operands
    second.op.operands

namespace Site.Alike

variable {first second : Site} (alike : first.Alike second frame twin)
include alike

theorem operand_agrees (position : Nat) :
    Agrees (Kin first.module second.module frame twin) (first.operand position)
      (second.operand position) := by
  unfold operand require
  cases here : first.op.operands[position]? with
  | none => exact .throw_left _ _
  | some value =>
      cases there : second.op.operands[position]? with
      | none => exact .throw_right _ _
      | some partner => exact .pure (related_of_getElem? alike.operands here there)

theorem operandDType_agrees (position : Nat) :
    Agrees Eq (first.operandDType position) (second.operandDType position) := by
  refine (alike.operand_agrees position).bind fun value partner kin => ?_
  rw [kin.type]
  refine (Agrees.require _).bind fun type _ same => ?_
  subst same
  exact .pure rfl

omit alike in
theorem scalar_agrees {value partner : Value}
    (kin : Kin first.module second.module frame twin value partner) :
    Agrees Eq (first.scalar frame value) (second.scalar twin partner) := by
  refine (lookup_agrees kin).bind fun datum _ same => ?_
  subst same
  cases datum with
  | scalar scalar => exact .pure rfl
  | buffer handle => exact .throw_left _ _

omit alike in
theorem int_agrees {value partner : Value}
    (kin : Kin first.module second.module frame twin value partner) :
    Agrees Eq (first.int frame value) (second.int twin partner) := by
  refine (scalar_agrees kin).bind fun scalar _ same => ?_
  subst same
  cases scalar with
  | int number => exact .pure rfl
  | float x => exact .throw_left _ _

omit alike in
theorem float_agrees {value partner : Value}
    (kin : Kin first.module second.module frame twin value partner) :
    Agrees Eq (first.float frame value) (second.float twin partner) := by
  refine (scalar_agrees kin).bind fun scalar _ same => ?_
  subst same
  cases scalar with
  | int number => exact .throw_left _ _
  | float x => exact .pure rfl

omit alike in
theorem buffer_agrees {value partner : Value}
    (kin : Kin first.module second.module frame twin value partner) :
    Agrees Eq (first.buffer frame value) (second.buffer twin partner) := by
  refine (lookup_agrees kin).bind fun datum _ same => ?_
  subst same
  cases datum with
  | scalar scalar => exact .throw_left _ _
  | buffer handle => exact .pure rfl

/-! ## Attributes -/

theorem attr_agrees (name : String) (form : Attribute → Option α) :
    Agrees Eq (first.attr name form) (second.attr name form) := by
  unfold attr Operation.attr?
  rw [← alike.attributes]
  cases (first.op.attributes.lookup name).bind form with
  | none => exact .throw_left _ _
  | some a => exact .pure rfl

omit alike in
theorem defined_agrees (found : Option α) :
    Agrees Eq (first.defined found) (second.defined found) := by
  cases found with
  | none => exact .throw_left _ _
  | some a => exact .pure rfl

omit alike in
theorem checked_agrees (overflows : Bool) :
    Agrees Eq (first.checked overflows) (second.checked overflows) := by
  unfold checked
  cases overflows with
  | false => exact .pure rfl
  | true => exact .throw_left _ _

omit alike in
theorem evalMap_agrees (map : AffineMap) (words : List Int64) :
    Agrees Eq (first.evalMap map words) (second.evalMap map words) :=
  (checked_agrees _).bind fun _ _ _ => defined_agrees _

omit alike in
theorem words_agree {values partners : List Value}
    (kin : List.Forall₂ (Kin first.module second.module frame twin) values partners) :
    Agrees Eq (first.words frame values) (second.words twin partners) := by
  unfold words
  induction kin with
  | nil => exact .pure rfl
  | cons here _ ih =>
      rw [List.mapM_cons, List.mapM_cons]
      have word : Agrees Eq (do return Int64.ofInt (← first.int frame _))
          (do return Int64.ofInt (← second.int twin _)) :=
        (int_agrees here).bind fun number other same => .pure (congrArg Int64.ofInt same)
      refine word.bind fun word _ same => ?_
      subst same
      refine ih.bind fun words _ same => ?_
      subst same
      exact .pure rfl

theorem access_agrees (count : Nat) :
    Agrees Eq (first.access frame (first.op.operands.drop count))
      (second.access twin (second.op.operands.drop count)) := by
  refine (alike.attr_agrees "map" _).bind fun map _ same => ?_
  subst same
  refine (words_agree (List.forall₂_drop count alike.operands)).bind fun words _ same => ?_
  subst same
  exact evalMap_agrees _ _

/-! ## Scalars -/

theorem resultDType?_eq : first.resultDType? = second.resultDType? := by
  rw [resultDType?, resultDType?, alike.results]

theorem constant_agrees : Agrees Eq first.constant second.constant := by
  unfold Site.constant Operation.attr?
  rw [alike.resultDType?_eq, ← alike.attributes]
  dsimp only
  split
  · exact .pure rfl
  · exact .pure rfl
  · exact .throw_left _ _

theorem compareInts_agree : Agrees Eq (first.compareInts frame) (second.compareInts twin) := by
  refine (alike.attr_agrees "predicate" _).bind fun pred _ same => ?_
  subst same
  refine (alike.operandDType_agrees 0).bind fun dtype _ same => ?_
  subst same
  refine (alike.operand_agrees 0).bind fun _ _ kin => (int_agrees kin).bind fun lhs _ same => ?_
  subst same
  refine (alike.operand_agrees 1).bind fun _ _ kin => (int_agrees kin).bind fun rhs _ same => ?_
  subst same
  exact .pure rfl

theorem compareFloats_agree :
    Agrees Eq (first.compareFloats frame) (second.compareFloats twin) := by
  refine (alike.attr_agrees "predicate" _).bind fun pred _ same => ?_
  subst same
  refine (alike.operand_agrees 0).bind fun _ _ kin => (float_agrees kin).bind fun lhs _ same => ?_
  subst same
  refine (alike.operand_agrees 1).bind fun _ _ kin => (float_agrees kin).bind fun rhs _ same => ?_
  subst same
  exact .pure rfl

theorem cast_agrees : Agrees Eq (first.cast frame) (second.cast twin) := by
  unfold Site.cast
  rw [alike.resultDType?_eq]
  refine (alike.operand_agrees 0).bind fun _ _ kin => (scalar_agrees kin).bind fun source _ same =>
    ?_
  subst same
  refine (alike.operandDType_agrees 0).bind fun dtype _ same => ?_
  subst same
  exact .pure rfl

theorem select_agrees : Agrees Eq (first.select frame) (second.select twin) := by
  refine (alike.operand_agrees 0).bind fun _ _ kin => (int_agrees kin).bind fun condition _ same =>
    ?_
  subst same
  exact (alike.operand_agrees _).bind fun _ _ kin => scalar_agrees kin

theorem getBit_agrees : Agrees Eq (first.getBit frame) (second.getBit twin) := by
  refine (alike.operand_agrees 0).bind fun _ _ kin => (int_agrees kin).bind fun value _ same => ?_
  subst same
  refine (alike.operand_agrees 1).bind fun _ _ kin => (int_agrees kin).bind fun position _ same =>
    ?_
  subst same
  refine (alike.operandDType_agrees 0).bind fun dtype _ same => ?_
  subst same
  exact .pure rfl

theorem unary_agrees (dtype : DType) (scalar : Scalar) :
    Agrees Eq (first.unary dtype scalar) (second.unary dtype scalar) := by
  unfold Site.unary
  rw [← alike.kind]
  dsimp only
  split
  · intro machine other
    exact (both_bind ..).mpr ((both_modify ..).mpr ((both_pure ..).mpr ⟨rfl, rfl, rfl⟩))
  · exact .throw_left _ _

theorem binary_agrees (dtype : DType) (lhs rhs : Scalar) :
    Agrees Eq (first.binary dtype lhs rhs) (second.binary dtype lhs rhs) := by
  unfold Site.binary
  rw [← alike.kind]
  cases Arithmetic.binary first.op.kind dtype lhs rhs with
  | ok scalar => exact .pure rfl
  | error error => cases error <;> exact .throw_left _ _

theorem arithmetic_agrees : Agrees Eq (first.arithmetic frame) (second.arithmetic twin) := by
  have operands := alike.operands
  unfold Site.arithmetic
  rw [alike.resultDType?_eq]
  generalize first.op.operands = values at operands ⊢
  generalize second.op.operands = partners at operands ⊢
  match operands with
  | .nil => exact .throw_left _ _
  | .cons kin .nil =>
      refine (scalar_agrees kin).bind fun operand _ same => ?_
      subst same
      exact alike.unary_agrees _ operand
  | .cons kin (.cons also .nil) =>
      refine (scalar_agrees kin).bind fun lhs _ same => ?_
      subst same
      refine (scalar_agrees also).bind fun rhs _ same => ?_
      subst same
      exact alike.binary_agrees _ lhs rhs
  | .cons _ (.cons _ (.cons _ _)) => exact .throw_left _ _

omit alike in
/-- The buffer that was found. -/
theorem find?_of_buffer_ok {site : Site} {value : Value} {handle : Nat} {machine after : Machine}
    (ran : site.buffer frame value machine = .ok handle after) :
    frame.find? value = some (.buffer handle) := by
  unfold buffer lookup at ran
  cases found : frame.find? value with
  | none =>
      rw [found] at ran
      cases ran
  | some datum =>
      rw [found, pure_bind] at ran
      cases datum with
      | scalar scalar => cases ran
      | buffer other =>
          cases ran
          rfl

omit alike in
/-- A buffer that is the same in both heaps has the same elements. -/
theorem element_agrees {handle : Nat} (indices : List Int64) {machine final : Machine}
    (same : machine.heap[handle]? = final.heap[handle]?) :
    Both (element handle indices) (element handle indices) machine final
      fun scalar result after last =>
        scalar = result ∧ after.heap = machine.heap ∧ last.heap = final.heap := by
  unfold element
  rw [both_bind, both_get, same, both_bind]
  refine (Agrees.require _ machine final).mono ?_
  rintro buffer _ latest ultimate ⟨rfl, steady, alsoSteady⟩
  split
  · exact (both_pure ..).mpr ⟨rfl, steady, alsoSteady⟩
  · exact Both.throw_left _ _

/-- The buffer of an operand. -/
theorem bufferAt_agrees (position : Nat) :
    Agrees (fun handle target => handle = target ∧ ∃ value partner,
      first.op.operands[position]? = some value ∧ frame.find? value = some (.buffer handle) ∧
      second.op.operands[position]? = some partner ∧ twin.find? partner = some (.buffer handle))
      (do first.buffer frame (← first.operand position))
      (do second.buffer twin (← second.operand position)) := by
  unfold operand require
  cases here : first.op.operands[position]? with
  | none => exact .throw_left _ _
  | some value =>
      cases there : second.op.operands[position]? with
      | none => exact .throw_right _ _
      | some partner =>
          have kin := related_of_getElem? alike.operands here there
          intro machine other handle target after final ran done
          obtain ⟨rfl, kept⟩ := buffer_agrees kin machine other handle target after final ran done
          exact ⟨⟨rfl, value, partner, rfl, find?_of_buffer_ok ran, rfl, find?_of_buffer_ok done⟩,
            kept⟩

/-- An element is read from a buffer that is the same in both heaps. -/
theorem load_agrees {machine final : Machine}
    (same : ∀ value partner handle, first.op.operands[0]? = some value →
      frame.find? value = some (.buffer handle) → second.op.operands[0]? = some partner →
      twin.find? partner = some (.buffer handle) →
      machine.heap[handle]? = final.heap[handle]?) :
    Both (first.load frame) (second.load twin) machine final fun scalar result after last =>
      scalar = result ∧ after.heap = machine.heap ∧ last.heap = final.heap := by
  rw [load_eq, load_eq, both_bind]
  refine (alike.bufferAt_agrees 0 machine final).mono ?_
  rintro handle _ middle between ⟨⟨rfl, value, partner, listed, found, there, known⟩, kept,
    alsoKept⟩
  rw [both_bind]
  refine (alike.access_agrees 1 middle between).mono ?_
  rintro indices _ after last ⟨rfl, still, alsoStill⟩
  refine (element_agrees indices ?_).mono ?_
  · rw [still, kept, alsoStill, alsoKept]
    exact same value partner handle listed found there known
  · rintro scalar result latest ultimate ⟨rfl, steady, alsoSteady⟩
    exact ⟨rfl, steady.trans (still.trans kept), alsoSteady.trans (alsoStill.trans alsoKept)⟩

/-- Stores on equal heaps put the same element into the same buffer. -/
theorem store_agrees {machine final : Machine} (same : machine.heap = final.heap) :
    Both (first.store frame) (second.store twin) machine final fun _ _ after last =>
      ∃ value partner handle change, first.op.operands[1]? = some value ∧
        frame.find? value = some (.buffer handle) ∧ second.op.operands[1]? = some partner ∧
        twin.find? partner = some (.buffer handle) ∧
        after.heap = machine.heap.modify handle change ∧
        last.heap = machine.heap.modify handle change := by
  have scalars : Agrees Eq (do first.scalar frame (← first.operand 0))
      (do second.scalar twin (← second.operand 0)) :=
    (alike.operand_agrees 0).bind fun _ _ kin => scalar_agrees kin
  rw [store_eq, store_eq, both_bind]
  refine (scalars machine final).mono ?_
  rintro scalar _ start begun ⟨rfl, kept, alsoKept⟩
  rw [both_bind]
  refine (alike.bufferAt_agrees 1 start begun).mono ?_
  rintro handle _ middle between ⟨⟨rfl, value, partner, listed, found, there, known⟩, still,
    alsoStill⟩
  rw [both_bind]
  refine (alike.access_agrees 2 middle between).mono ?_
  rintro indices _ late behind ⟨rfl, steady, alsoSteady⟩
  have here : late.heap = machine.heap := steady.trans (still.trans kept)
  have after : behind.heap = machine.heap :=
    (alsoSteady.trans (alsoStill.trans alsoKept)).trans same.symm
  rw [both_bind, shapeOf, both_bind, both_get, here, after]
  refine (Agrees.require _ late behind).mono ?_
  rintro shape _ last end_ ⟨rfl, rest, alsoRest⟩
  cases Buffer.offset? shape indices with
  | none => exact Both.throw_left _ _
  | some offset =>
      exact (both_modify ..).mpr ⟨value, partner, handle, _, listed, found, there,
        known, by rw [rest, here],
        by rw [alsoRest, after]⟩

end Site.Alike

/-! ## What operations do -/


/-- The scalar that an operation computes in a frame. -/
def Site.value (site : Site) (frame : Frame) : Exec Scalar :=
  match site.op.kind with
  | .constant => site.constant
  | .load => site.load frame
  | .indexCast | .conversionCast => site.cast frame
  | .select => site.select frame
  | .getBit => site.getBit frame
  | .cmpI | .cmpFixed => site.compareInts frame
  | .cmpF => site.compareFloats frame
  | _ => site.arithmetic frame

/-- An operation that computes a scalar defines it. -/
theorem runOp_computes {run : RunBlock} {id : OpId} {op : Operation}
    (found : module.op? id = some op)
    (computes : op.kind.computes = true) :
    runOp module run id frame = defining id frame ((site found).value frame) := by
  rw [runOp, found, require_some, pure_bind, Site.value]
  cases kind : op.kind <;> first | rfl | (rw [kind] at computes; cases computes)

namespace Site.Alike

variable {first second : Site} (alike : first.Alike second frame twin)
include alike

/-- Operations that are alike compute the same scalar. -/
theorem value_agrees {machine final : Machine}
    (same : first.op.kind = .load → ∀ value partner handle, first.op.operands[0]? = some value →
      frame.find? value = some (.buffer handle) → second.op.operands[0]? = some partner →
      twin.find? partner = some (.buffer handle) →
      machine.heap[handle]? = final.heap[handle]?) :
    Both (first.value frame) (second.value twin) machine final fun scalar result after last =>
      scalar = result ∧ after.heap = machine.heap ∧ last.heap = final.heap := by
  have kinds := alike.kind
  unfold Site.value
  rw [← kinds]
  cases kind : first.op.kind with
  | constant => exact alike.constant_agrees machine final
  | load => exact alike.load_agrees (same kind)
  | indexCast | conversionCast => exact alike.cast_agrees machine final
  | select => exact alike.select_agrees machine final
  | getBit => exact alike.getBit_agrees machine final
  | cmpI | cmpFixed => exact alike.compareInts_agree machine final
  | cmpF => exact alike.compareFloats_agree machine final
  | _ => exact alike.arithmetic_agrees machine final

theorem loopRange_agrees : Agrees Eq (first.loopRange frame) (second.loopRange twin) := by
  refine (alike.attr_agrees "lower_bound" _).bind fun lower _ same => ?_
  subst same
  refine (alike.attr_agrees "upper_bound" _).bind fun upper _ same => ?_
  subst same
  refine (alike.attr_agrees "step" _).bind fun step _ same => ?_
  subst same
  refine (words_agree (List.forall₂_take _ alike.operands)).bind fun lowerWords _ same => ?_
  subst same
  refine (words_agree (List.forall₂_drop _ alike.operands)).bind fun upperWords _ same => ?_
  subst same
  refine (evalMap_agrees _ _).bind fun lowerBounds _ same => ?_
  subst same
  refine (evalMap_agrees _ _).bind fun upperBounds _ same => ?_
  subst same
  exact .pure rfl

theorem branch_agrees (regions : first.op.regions = second.op.regions) :
    Agrees (fun region result => region = result ∧ ∀ block ∈ region, block ∈ first.op.regions)
      (first.branch frame) (second.branch twin) := by
  refine (alike.attr_agrees "condition" _).bind fun condition _ same => ?_
  subst same
  refine (words_agree alike.operands).bind fun words _ same => ?_
  subst same
  refine (checked_agrees _).bind fun _ _ _ => (defined_agrees _).bind fun taken _ same => ?_
  subst same
  exact .pure ⟨by rw [regions], fun block chosen => List.mem_of_getElem? chosen⟩

end Site.Alike

end Machine

end AffineKernel
