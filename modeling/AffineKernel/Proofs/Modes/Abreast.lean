import AffineKernel.Proofs.Modes.Coherence

/-!
# Frames abreast

Two parallel modules run on equal heaps. The frames of the two runs are kept
*abreast* (`Abreast`): both are coherent, and they agree on arguments of blocks
and on results of operations that act, as far as both have them. Then they agree
on all twins that both have (`Abreast.datum_eq`), since twins are computed alike
from values that they agree on.

Frames stay abreast when one of the runs computes a scalar by a pure operation
(`Abreast.compute_left`), when both define the same datum by operations that act
alike (`Abreast.define`), and when both enter a block with the same scalars
(`Abreast.enter`).
-/

set_option autoImplicit false

namespace AffineKernel

namespace Machine

variable {frame : Frame} {machine : Machine}

theorem Site.Alike.refl (site : Site) (frame : Frame) : site.Alike site frame frame where
  kind := rfl
  attributes := rfl
  results := rfl
  operands := List.forall₂_same.mpr fun _ _ =>
    ⟨fun _ _ found known => Option.some.inj (found.symm.trans known), rfl⟩

/-- Computing a scalar leaves the heap alone. -/
theorem Site.value_steady {site : Site} {scalar : Scalar} {after : Machine}
    (ran : site.value frame machine = .ok scalar after) : after.heap = machine.heap :=
  ((Site.Alike.refl site frame).value_agrees (fun _ _ _ _ _ _ _ _ => rfl) scalar scalar after after
    ran
    ran).2.1

/-! ## Frames abreast -/

/-- Coherent frames of two runs on one heap that agree on arguments and on what acts. -/
structure Abreast (module other : Module) (frame twin : Frame) (heap : Array Buffer) : Prop where
  left : frame.Coherent module heap
  right : twin.Coherent other heap
  args : ∀ block position first second, frame.find? (.arg block position) = some first →
    twin.find? (.arg block position) = some second → first = second
  acts : ∀ id op partner mate first second, module.op? id = some op →
    other.op? partner = some mate → op.isPure = false → mate.isPure = false →
    module.rank id.index = other.rank partner.index → frame.find? (.result id 0) = some first →
    twin.find? (.result partner 0) = some second → first = second

end Machine

namespace Module

variable {module other : Module}

/-- Values with the same tree are of the same type. -/
theorem Parallel.valueType?_eq (parallel : Parallel module other) {value partner : Value}
    (twins : Twins module other value partner) :
    module.valueType? value = other.valueType? partner := by
  obtain ⟨tree, left, right⟩ := twins
  cases tree with
  | arg block position =>
      obtain ⟨rfl, small⟩ := left
      obtain ⟨rfl, -⟩ := right
      have here : module.block? block = some module.blocks[block.index] :=
        Array.getElem?_eq_getElem small
      obtain ⟨partner, there⟩ := parallel.exists_block here
      simp [valueType?, here, there, (parallel.block here there).1]
  | act rank results =>
      obtain ⟨id, op, rfl, found, -, -, rfl, -⟩ := left
      obtain ⟨id', op', rfl, found', -, -, same, -⟩ := right
      simp [valueType?, found, found', same]
  | pure kind attributes results operands =>
      obtain ⟨id, op, rfl, found, -, -, -, -, rfl, -⟩ := left
      obtain ⟨id', op', rfl, found', -, -, -, -, same, -⟩ := right
      simp [valueType?, found, found', same]

end Module

namespace Machine

variable {module other : Module} {frame twin : Frame} {heap : Array Buffer}

namespace Abreast

mutual

/-- Frames that are abreast agree on values with the same tree. -/
theorem datum_eq (abreast : Abreast module other frame twin heap)
    (parallel : Module.Parallel module other) : ∀ (tree : Tree) {value partner : Value}
    {first second : Datum},
    module.Shows tree value → other.Shows tree partner → frame.find? value = some first →
    twin.find? partner = some second → first = second
  | .arg block position, _, _, first, second, ⟨rfl, _⟩, ⟨rfl, _⟩, found, known =>
      abreast.args block position first second found known
  | .act rank results, _, _, first, second, shows_, shown, found, known => by
      obtain ⟨id, op, rfl, there, -, acts, -, rfl⟩ := shows_
      obtain ⟨partner, mate, rfl, here, -, also, -, ranked⟩ := shown
      exact abreast.acts id op partner mate first second there here acts also ranked.symm found
        known
  | .pure kind attributes results operands, _, _, first, second, shows_, shown, found, known => by
      obtain ⟨id, op, rfl, there, -, pure, rfl, rfl, rfl, all⟩ := shows_
      obtain ⟨partner, mate, rfl, here, -, also, kinds, attrs, types, alls⟩ := shown
      obtain ⟨before, start, last, scalar, rfl, ran, kept, loaded⟩ :=
        abreast.left.computed id op first there pure found
      obtain ⟨past, begun, end_, result, rfl, done, had, read⟩ :=
        abreast.right.computed partner mate second here also known
      have kin := kin_all abreast parallel operands all alls kept had
      have alike : (⟨module, id, op⟩ : Site).Alike ⟨other, partner, mate⟩ before past :=
        ⟨kinds.symm, attrs.symm, types.symm, kin⟩
      refine congrArg Datum.scalar (alike.value_agrees ?_ _ _ _ _ ran done).1
      intro kind value memref handle listed placed stands stored
      rw [loaded kind value handle listed placed,
        read (kinds.trans kind) memref handle stands stored]

/-- So do frames with the same data. -/
theorem kin_all (abreast : Abreast module other frame twin heap)
    (parallel : Module.Parallel module other) : ∀ (trees : List Tree) {values partners : List Value}
    {before past : Frame},
    module.ShowsAll trees values → other.ShowsAll trees partners →
    (∀ value ∈ values, ∀ datum, before.find? value = some datum → frame.find? value = some datum) →
    (∀ value ∈ partners, ∀ datum, past.find? value = some datum → twin.find? value = some datum) →
    List.Forall₂ (Kin module other before past) values partners
  | [], _, _, _, _, rfl, rfl, _, _ => .nil
  | tree :: trees, _, _, before, past, ⟨value, rest, rfl, shows_, all⟩,
      ⟨partner, others, rfl, shown, alls⟩, kept, had => by
      refine .cons ⟨fun first second found known => ?_, ?_⟩ (kin_all abreast parallel trees all alls
        (fun value listed => kept value (List.mem_cons_of_mem _ listed))
        fun value listed => had value (List.mem_cons_of_mem _ listed))
      · exact datum_eq abreast parallel tree shows_ shown
          (kept value List.mem_cons_self first found)
          (had partner List.mem_cons_self second known)
      · exact parallel.valueType?_eq ⟨tree, shows_, shown⟩

end

variable (abreast : Abreast module other frame twin heap)
include abreast

/-- Operations that act alike are alike in frames that are abreast. -/
theorem alike (parallel : Module.Parallel module other) {id partner : OpId} {op mate : Operation}
    (kind : op.kind = mate.kind) (attributes : op.attributes = mate.attributes)
    (results : op.results = mate.results)
    (operands : List.Forall₂ (Module.Twins module other) op.operands mate.operands) :
    (⟨module, id, op⟩ : Site).Alike ⟨other, partner, mate⟩ frame twin := by
  obtain ⟨trees, all, alls⟩ := Module.exists_trees operands
  exact ⟨kind, attributes, results, abreast.kin_all parallel trees all alls
    (fun _ _ _ found => found) fun _ _ _ found => found⟩

theorem symm : Abreast other module twin frame heap where
  left := abreast.right
  right := abreast.left
  args block position first second found known :=
    (abreast.args block position second first known found).symm
  acts id op partner mate first second there here acts also ranked found known :=
    (abreast.acts partner mate id op second first here there also acts ranked.symm known found).symm

/-- On a later heap that protects what is read. -/
theorem later {after : Array Buffer} (protects : Protects module frame heap after)
    (alsoProtects : Protects other twin heap after) : Abreast module other frame twin after :=
  { abreast with left := abreast.left.later protects, right := abreast.right.later alsoProtects }

variable {block : BlockId} {ops : List OpId} {id : OpId}

/-- One of the runs computes a scalar. -/
theorem compute_left (past : frame.Past module block ops) (late : id ∈ ops) {op : Operation}
    (found : module.op? id = some op) (pure : op.isPure = true) {scalar : Scalar}
    {machine after : Machine} (same : machine.heap = heap)
    (ran : (⟨module, id, op⟩ : Site).value frame machine = .ok scalar after) :
    Abreast module other (frame.define (.result id 0) (.scalar scalar)) twin heap where
  left := by
    refine abreast.left.define past late (fun handle same => nomatch same) fun op' again _ => ?_
    cases found.symm.trans again
    exact ⟨frame, machine, after, scalar, rfl, ran, fun _ _ _ had => had, fun _ _ _ _ _ =>
      same ▸ rfl⟩
  right := abreast.right
  args block position first second here there := by
    rcases Frame.find?_define_cases here with ⟨same, -⟩ | old
    · cases same
    · exact abreast.args block position first second old there
  acts other_ op' partner mate first second known matched acts also ranked here there := by
    rcases Frame.find?_define_cases here with ⟨same, -⟩ | old
    · cases same
      cases found.symm.trans known
      rw [pure] at acts
      cases acts
    · exact abreast.acts other_ op' partner mate first second known matched acts also ranked old
        there

/-- Operations that act alike define the same datum. -/
theorem define {partner : OpId} {op mate : Operation} {others : List OpId}
    (past : frame.Past module block ops) (late : id ∈ ops) (alsoPast : twin.Past other block others)
    (alsoLate : partner ∈ others)
    (found : module.op? id = some op) (matched : other.op? partner = some mate)
    (acts : op.isPure = false) (also : mate.isPure = false)
    (ranked : module.rank id.index = other.rank partner.index) {datum : Datum}
    (buffer : ∀ handle, datum = .buffer handle → handle < heap.size ∧
      (∀ value, frame.find? value ≠ some (.buffer handle)) ∧
      ∀ value, twin.find? value ≠ some (.buffer handle)) :
    Abreast module other (frame.define (.result id 0) datum) (twin.define (.result partner 0) datum)
      heap where
  left := by
    refine abreast.left.define past late (fun handle same => ?_) fun op' again pure => ?_
    · exact ⟨(buffer handle same).1, (buffer handle same).2.1⟩
    · cases found.symm.trans again
      rw [acts] at pure
      cases pure
  right := by
    refine abreast.right.define alsoPast alsoLate (fun handle same => ?_) fun op' again pure => ?_
    · exact ⟨(buffer handle same).1, (buffer handle same).2.2⟩
    · cases matched.symm.trans again
      rw [also] at pure
      cases pure
  args block position first second here there := by
    rcases Frame.find?_define_cases here with ⟨same, -⟩ | old
    · cases same
    · rcases Frame.find?_define_cases there with ⟨same, -⟩ | had
      · cases same
      · exact abreast.args block position first second old had
  acts one op' two mate' first second known fits acts' also' same here there := by
    have actsNow : module.acts id.index = true := by rw [Module.acts_iff found, acts]; rfl
    have alsoNow : other.acts partner.index = true := by rw [Module.acts_iff matched, also]; rfl
    have actsOne : module.acts one.index = true := by rw [Module.acts_iff known, acts']; rfl
    have alsoTwo : other.acts two.index = true := by rw [Module.acts_iff fits, also']; rfl
    -- Either both operations are the new ones, or neither is.
    rcases Frame.find?_define_cases here with ⟨new, rfl⟩ | old
    · cases new
      obtain rfl : two = partner :=
        congrArg OpId.mk (Module.rank_injective alsoTwo alsoNow (same.symm.trans ranked))
      rcases Frame.find?_define_cases there with ⟨-, rfl⟩ | had
      · rfl
      · rw [alsoPast.fresh alsoLate] at had
        cases had
    · rcases Frame.find?_define_cases there with ⟨new, rfl⟩ | had
      · cases new
        obtain rfl : one = id :=
          congrArg OpId.mk (Module.rank_injective actsOne actsNow (same.trans ranked.symm))
        rw [past.fresh late] at old
        cases old
      · exact abreast.acts one op' two mate' first second known fits acts' also' same old had

/-- Both runs enter a block with the same scalars. -/
theorem enter {others : List OpId} (past : frame.Past module block ops)
    (alsoPast : twin.Past other block others) {region : BlockId}
    (inner : block.index < region.index) {args : List Datum}
    (scalars : ∀ datum ∈ args, ∃ scalar, datum = .scalar scalar) :
    Abreast module other (frame.enter region args) (twin.enter region args) heap where
  left := abreast.left.enter past inner scalars
  right := abreast.right.enter alsoPast inner scalars
  args target position one two here there := by
    rcases Frame.find?_enter_cases here with ⟨place, same, given⟩ | old
    · cases same
      rw [Frame.find?_enter_arg given] at there
      exact Option.some.inj there
    · rcases Frame.find?_enter_cases there with ⟨place, same, given⟩ | had
      · cases same
        rw [Frame.find?_enter_arg given] at here
        exact Option.some.inj here.symm
      · exact abreast.args target position one two old had
  acts id op partner mate one two found matched acts also ranked here there := by
    rw [Frame.find?_enter_of_ne (by simp)] at here there
    exact abreast.acts id op partner mate one two found matched acts also ranked here there

end Abreast

end Machine

end AffineKernel
