import AffineKernel.Proofs.IR.Ancestry
import Mathlib.Logic.Relation

/-!
# The walk through a module

Whoever walks through a module in block order comes to a block, then to each of
the operations that it lists, and from an operation to its regions before the
next operation (`Module.tour`). The walk needs fuel, since nothing in the data
says that it ends.

In an assembled module, the fuel suffices and nothing is met twice: the walk
comes to every block and every operation exactly once (`Assembled.tour_covers`).
It goes deep enough because a region is numbered after the block around it, so
that a block is not nested deeper than its number. It comes to nothing twice
because the way outwards is unique: a place inside of two regions of one block
would make one of them enclose the other.

Every block brings its arguments and every operation its results, so that all
values of the module are met once, too (`Assembled.values_covered`).
-/

set_option autoImplicit false

namespace AffineKernel

/-- What the walk through a module comes to. -/
inductive Place where
  | block (id : BlockId)
  | op (id : OpId)
deriving DecidableEq

/-- The operation, if the walk comes to one. -/
def Place.op? : Place → Option OpId
  | op id => some id
  | block _ => none

/-- Where a value is introduced. -/
def Value.origin : Value → Place
  | .result op _ => .op op
  | .arg block _ => .block block

namespace Module

variable {module : Module}

/-! ## The walk -/

/-- An operation and then its regions, given the walk through a block. -/
def tourOp (module : Module) (inner : BlockId → List Place) (id : OpId) : List Place :=
  match module.op? id with
  | none => []
  | some op => .op id :: op.regions.flatMap inner

/-- A block and everything in it, to a nesting depth of `fuel`. -/
def tourFrom (module : Module) : Nat → BlockId → List Place
  | 0, _ => []
  | fuel + 1, block =>
    match module.block? block with
    | none => []
    | some found => .block block :: found.ops.flatMap (module.tourOp (module.tourFrom fuel))

/-- Everything in the module, in block order. -/
def tour (module : Module) : List Place := module.tourFrom module.blocks.size body

/-- The values that are introduced at a place: the arguments of a block, and the results of an
operation. -/
def valuesAt (module : Module) : Place → List Value
  | .block id =>
    match module.block? id with
    | none => []
    | some found => (List.range found.args.length).map (Value.arg id)
  | .op id =>
    match module.op? id with
    | none => []
    | some op => (List.range op.results.length).map (Value.result id)

/-- Whether the module has the block or operation. -/
def Has (module : Module) : Place → Prop
  | .block id => ∃ found, module.block? id = some found
  | .op id => ∃ op, module.op? id = some op

theorem valuesAt_block {id : BlockId} {found : Block} (known : module.block? id = some found) :
    module.valuesAt (.block id) = (List.range found.args.length).map (Value.arg id) := by
  simp only [valuesAt, known]

theorem valuesAt_op {id : OpId} {op : Operation} (there : module.op? id = some op) :
    module.valuesAt (.op id) = (List.range op.results.length).map (Value.result id) := by
  simp only [valuesAt, there]

theorem mem_tourOp {inner : BlockId → List Place} {id : OpId} {place : Place} :
    place ∈ module.tourOp inner id ↔ ∃ op, module.op? id = some op ∧
      (place = .op id ∨ ∃ region ∈ op.regions, place ∈ inner region) := by
  unfold tourOp
  cases there : module.op? id <;> simp

theorem mem_tourFrom_succ {fuel : Nat} {block : BlockId} {place : Place} :
    place ∈ module.tourFrom (fuel + 1) block ↔ ∃ found, module.block? block = some found ∧
      (place = .block block ∨
        ∃ id ∈ found.ops, place ∈ module.tourOp (module.tourFrom fuel) id) := by
  unfold tourFrom
  cases known : module.block? block <;> simp

/-! ## Nothing is left out -/

/-- The walk comes to what the blocks that it comes to list. -/
theorem op_mem_tourFrom {fuel : Nat} {root block : BlockId} {found : Block} {id : OpId}
    {op : Operation} (met : .block block ∈ module.tourFrom fuel root)
    (known : module.block? block = some found) (listed : id ∈ found.ops)
    (there : module.op? id = some op) : .op id ∈ module.tourFrom fuel root := by
  induction fuel generalizing root with
  | zero => cases met
  | succ fuel ih =>
      obtain ⟨around, aroundKnown, here | ⟨outer, outerListed, inside⟩⟩ := mem_tourFrom_succ.mp met
      · obtain rfl := Place.block.inj here
        obtain rfl := Option.some.inj (known.symm.trans aroundKnown)
        exact mem_tourFrom_succ.mpr
          ⟨found, known, .inr ⟨id, listed, mem_tourOp.mpr ⟨op, there, .inl rfl⟩⟩⟩
      · obtain ⟨outerOp, outerThere, impossible | ⟨region, owned, deeper⟩⟩ := mem_tourOp.mp inside
        · cases impossible
        · exact mem_tourFrom_succ.mpr ⟨around, aroundKnown, .inr ⟨outer, outerListed,
            mem_tourOp.mpr ⟨outerOp, outerThere, .inr ⟨region, owned, ih deeper⟩⟩⟩⟩

/-- With more fuel by one, the walk comes to the regions of the operations that it comes to. -/
theorem region_mem_tourFrom {fuel : Nat} {root block region : BlockId} {found inner : Block}
    {id : OpId} {op : Operation} (met : .block block ∈ module.tourFrom fuel root)
    (known : module.block? block = some found) (listed : id ∈ found.ops)
    (there : module.op? id = some op) (owned : region ∈ op.regions)
    (innerKnown : module.block? region = some inner) :
    .block region ∈ module.tourFrom (fuel + 1) root := by
  induction fuel generalizing root with
  | zero => cases met
  | succ fuel ih =>
      obtain ⟨around, aroundKnown, here | ⟨outer, outerListed, inside⟩⟩ := mem_tourFrom_succ.mp met
      · obtain rfl := Place.block.inj here
        obtain rfl := Option.some.inj (known.symm.trans aroundKnown)
        have first : .block region ∈ module.tourFrom (fuel + 1) region :=
          mem_tourFrom_succ.mpr ⟨inner, innerKnown, .inl rfl⟩
        exact mem_tourFrom_succ.mpr ⟨found, known, .inr ⟨id, listed,
          mem_tourOp.mpr ⟨op, there, .inr ⟨region, owned, first⟩⟩⟩⟩
      · obtain ⟨outerOp, outerThere, impossible | ⟨middle, ownedBy, deeper⟩⟩ :=
          mem_tourOp.mp inside
        · cases impossible
        · exact mem_tourFrom_succ.mpr ⟨around, aroundKnown, .inr ⟨outer, outerListed,
            mem_tourOp.mpr ⟨outerOp, outerThere, .inr ⟨middle, ownedBy, ih deeper⟩⟩⟩⟩

/-- The walk comes to every block whose number is below the fuel. -/
theorem Assembled.block_mem_tourFrom (assembled : module.Assembled) {fuel : Nat} {block : BlockId}
    {found : Block} (known : module.block? block = some found) (enough : block.index < fuel) :
    .block block ∈ module.tourFrom fuel body := by
  induction fuel generalizing block found with
  | zero => cases enough
  | succ fuel ih =>
      by_cases outermost : block = body
      · subst outermost
        exact mem_tourFrom_succ.mpr ⟨found, known, .inl rfl⟩
      · -- The block around the region comes before it, and so it was met with less fuel.
        obtain ⟨-, owner, op, -, there, owned, -, -⟩ :=
          assembled.ownsEachOnce.2.2 block outermost (index_lt_of_block? known)
        obtain ⟨around, aroundKnown, listed⟩ := assembled.numbered.placed there
        have before := (assembled.forest.region there block owned).1
        have met := ih aroundKnown (Nat.lt_of_lt_of_le before (Nat.le_of_lt_succ enough))
        exact region_mem_tourFrom met aroundKnown listed there owned known

/-! ## Nothing is met twice -/

/-- A block is a region of an operation that the other block lists. -/
def LiesIn (module : Module) (inner outer : BlockId) : Prop :=
  ∃ id op, module.op? id = some op ∧ inner ∈ op.regions ∧ op.parent = outer

/-- The block itself, or the parent of an operation. -/
def StandsIn (module : Module) : Place → BlockId → Prop
  | .block id, block => id = block
  | .op id, block => ∃ op, module.op? id = some op ∧ op.parent = block

theorem standsIn_op {id : OpId} {op : Operation} {block : BlockId}
    (there : module.op? id = some op) (parent : op.parent = block) :
    module.StandsIn (.op id) block :=
  ⟨op, there, parent⟩

theorem StandsIn.unique {place : Place} {first second : BlockId}
    (one : module.StandsIn place first) (other : module.StandsIn place second) :
    first = second := by
  cases place with
  | block id => exact one.symm.trans other
  | op id =>
      obtain ⟨op, there, rfl⟩ := one
      obtain ⟨same, there', rfl⟩ := other
      rw [Option.some.inj (there.symm.trans there')]

section Forest

variable (forest : module.Forest)
include forest

theorem Forest.liesIn_unique : Relator.RightUnique module.LiesIn := by
  rintro inner first second ⟨id, op, there, owned, rfl⟩ ⟨other, otherOp, otherThere, likewise, rfl⟩
  obtain rfl := forest.region_unique there owned otherThere likewise
  rw [Option.some.inj (there.symm.trans otherThere)]

theorem Forest.liesIn_lt {inner outer : BlockId} (inside : module.LiesIn inner outer) :
    outer.index < inner.index := by
  obtain ⟨id, op, there, owned, rfl⟩ := inside
  exact (forest.region there inner owned).1

theorem Forest.le_of_reaches {inner outer : BlockId}
    (inside : Relation.ReflTransGen module.LiesIn inner outer) : outer.index ≤ inner.index := by
  induction inside with
  | refl => exact Nat.le_refl _
  | tail _ last ih => exact Nat.le_trans (Nat.le_of_lt (forest.liesIn_lt last)) ih

/-- Blocks that lie in one block have no block in common. -/
theorem Forest.eq_of_common {place root first second : BlockId}
    (inFirst : Relation.ReflTransGen module.LiesIn place first) (firstIn : module.LiesIn first root)
    (inSecond : Relation.ReflTransGen module.LiesIn place second)
    (secondIn : module.LiesIn second root) : first = second := by
  -- Otherwise one of them lies in the other, and then the root lies in it as well.
  have apart : ∀ {one other : BlockId}, module.LiesIn one root → module.LiesIn other root →
      Relation.ReflTransGen module.LiesIn one other → one = other := by
    intro one other oneIn otherIn way
    rcases Relation.ReflTransGen.cases_head way with same | ⟨next, step, rest⟩
    · exact same
    · obtain rfl := forest.liesIn_unique step oneIn
      exact absurd (forest.le_of_reaches rest) (Nat.not_le.mpr (forest.liesIn_lt otherIn))
  rcases Relation.ReflTransGen.total_of_right_unique forest.liesIn_unique inFirst inSecond
    with way | way
  · exact apart firstIn secondIn way
  · exact (apart secondIn firstIn way).symm

/-- What the walk through a block comes to is in that block, or further inside. -/
theorem Forest.reaches_of_mem {fuel : Nat} {root : BlockId} {place : Place}
    (met : place ∈ module.tourFrom fuel root) :
    ∃ block, module.StandsIn place block ∧ Relation.ReflTransGen module.LiesIn block root := by
  induction fuel generalizing root with
  | zero => cases met
  | succ fuel ih =>
      obtain ⟨found, known, rfl | ⟨id, listed, inside⟩⟩ := mem_tourFrom_succ.mp met
      · exact ⟨root, rfl, .refl⟩
      · obtain ⟨op, there, parent⟩ := forest.listed known id listed
        obtain ⟨same, there', rfl | ⟨region, owned, deeper⟩⟩ := mem_tourOp.mp inside
        · exact ⟨root, ⟨op, there, parent⟩, .refl⟩
        · obtain rfl := Option.some.inj (there.symm.trans there')
          obtain ⟨block, stands, way⟩ := ih deeper
          exact ⟨block, stands, way.tail ⟨id, op, there, owned, parent⟩⟩

/-- The walk through a region does not come to what stands in the block around it. -/
theorem Forest.not_mem_of_standsIn {fuel : Nat} {root region : BlockId} {place : Place}
    (stands : module.StandsIn place root) (inside : module.LiesIn region root) :
    place ∉ module.tourFrom fuel region := by
  intro met
  obtain ⟨block, standsIn, way⟩ := forest.reaches_of_mem met
  obtain rfl := stands.unique standsIn
  exact absurd (forest.le_of_reaches way) (Nat.not_le.mpr (forest.liesIn_lt inside))

/-- The walks through two regions of one block have nothing in common. -/
theorem Forest.eq_of_mem_both {fuel : Nat} {root first second : BlockId} {place : Place}
    (inFirst : place ∈ module.tourFrom fuel first) (firstIn : module.LiesIn first root)
    (inSecond : place ∈ module.tourFrom fuel second) (secondIn : module.LiesIn second root) :
    first = second := by
  obtain ⟨block, stands, way⟩ := forest.reaches_of_mem inFirst
  obtain ⟨same, standsToo, otherWay⟩ := forest.reaches_of_mem inSecond
  obtain rfl := stands.unique standsToo
  exact forest.eq_of_common way firstIn otherWay secondIn

end Forest

/-- No operation owns a block twice. -/
theorem Assembled.regions_nodup (assembled : module.Assembled) {id : OpId} {op : Operation}
    (there : module.op? id = some op) : op.regions.Nodup := by
  have once : module.ownedBlocks.Nodup := by
    rw [assembled.ownedBlocks_eq.2]
    exact List.Nodup.map (fun _ _ same => congrArg BlockId.index same) List.nodup_range'
  have member : op ∈ module.ops.toList := by
    simpa using Array.mem_of_getElem? there
  exact (List.nodup_flatMap.mp once).1 op member

section Once

variable (assembled : module.Assembled)
include assembled

/-- If the walks through the regions of an operation meet nothing twice, neither does the walk
through the operation. -/
theorem Assembled.tourOp_nodup {fuel : Nat} {id : OpId} {op : Operation}
    (there : module.op? id = some op)
    (regions : ∀ region ∈ op.regions, (module.tourFrom fuel region).Nodup) :
    (module.tourOp (module.tourFrom fuel) id).Nodup := by
  have lies : ∀ region ∈ op.regions, module.LiesIn region op.parent := fun region owned =>
    ⟨id, op, there, owned, rfl⟩
  simp only [tourOp, there]
  rw [List.nodup_cons, List.nodup_flatMap]
  refine ⟨fun met => ?_, regions, ?_⟩
  · obtain ⟨region, owned, inside⟩ := List.mem_flatMap.mp met
    exact assembled.forest.not_mem_of_standsIn (standsIn_op there rfl) (lies region owned) inside
  · refine (assembled.regions_nodup there).imp_of_mem ?_
    intro first second firstOwned secondOwned different place inFirst inSecond
    exact different (assembled.forest.eq_of_mem_both inFirst (lies first firstOwned) inSecond
      (lies second secondOwned))

/-- The walks through two operations of one block have nothing in common. -/
theorem Assembled.tourOp_disjoint {fuel : Nat} {block : BlockId} {found : Block}
    (known : module.block? block = some found) {first second : OpId}
    (firstListed : first ∈ found.ops) (secondListed : second ∈ found.ops)
    (different : first ≠ second) :
    (module.tourOp (module.tourFrom fuel) first).Disjoint
      (module.tourOp (module.tourFrom fuel) second) := by
  have forest := assembled.forest
  obtain ⟨firstOp, firstThere, firstIn⟩ := forest.listed known first firstListed
  obtain ⟨secondOp, secondThere, secondIn⟩ := forest.listed known second secondListed
  intro place inFirst inSecond
  obtain ⟨one, oneThere, atFirst⟩ := mem_tourOp.mp inFirst
  obtain ⟨other, otherThere, atSecond⟩ := mem_tourOp.mp inSecond
  obtain rfl := Option.some.inj (firstThere.symm.trans oneThere)
  obtain rfl := Option.some.inj (secondThere.symm.trans otherThere)
  rcases atFirst with rfl | ⟨region, owned, inside⟩
  · rcases atSecond with same | ⟨region, owned, inside⟩
    · exact different (Place.op.inj same)
    · exact forest.not_mem_of_standsIn (standsIn_op firstThere firstIn)
        ⟨second, secondOp, secondThere, owned, secondIn⟩ inside
  · rcases atSecond with rfl | ⟨region', owned', inside'⟩
    · exact forest.not_mem_of_standsIn (standsIn_op secondThere secondIn)
        ⟨first, firstOp, firstThere, owned, firstIn⟩ inside
    · obtain rfl := forest.eq_of_mem_both inside ⟨first, firstOp, firstThere, owned, firstIn⟩
        inside' ⟨second, secondOp, secondThere, owned', secondIn⟩
      exact different (forest.region_unique firstThere owned secondThere owned')

/-- The walk through a block meets nothing twice. -/
theorem Assembled.tourFrom_nodup (fuel : Nat) (block : BlockId) :
    (module.tourFrom fuel block).Nodup := by
  induction fuel generalizing block with
  | zero => exact .nil
  | succ fuel ih =>
      cases known : module.block? block with
      | none => simp [tourFrom, known]
      | some found =>
          simp only [tourFrom, known]
          rw [List.nodup_cons, List.nodup_flatMap]
          refine ⟨fun met => ?_, fun id listed => ?_, ?_⟩
          · obtain ⟨id, listed, inside⟩ := List.mem_flatMap.mp met
            obtain ⟨op, there, parent⟩ := assembled.forest.listed known id listed
            obtain ⟨same, there', impossible | ⟨region, owned, deeper⟩⟩ := mem_tourOp.mp inside
            · cases impossible
            · obtain rfl := Option.some.inj (there.symm.trans there')
              have lies : module.LiesIn region block := ⟨id, op, there, owned, parent⟩
              have own : module.StandsIn (.block block) block := rfl
              exact assembled.forest.not_mem_of_standsIn own lies deeper
          · obtain ⟨op, there, -⟩ := assembled.forest.listed known id listed
            exact assembled.tourOp_nodup there fun region _ => ih region
          · refine (assembled.listed_once known).imp_of_mem ?_
            intro first second firstListed secondListed different
            exact assembled.tourOp_disjoint known firstListed secondListed different

/-! ## Everything once -/

/-- The walk comes to all that the module has, and to nothing twice. -/
theorem Assembled.tour_covers :
    module.tour.Nodup ∧ ∀ place, place ∈ module.tour ↔ module.Has place := by
  have blocks : ∀ {block : BlockId} {found : Block}, module.block? block = some found →
      .block block ∈ module.tour := fun known =>
    assembled.block_mem_tourFrom known (index_lt_of_block? known)
  refine ⟨assembled.tourFrom_nodup _ _, fun place => ⟨fun met => ?_, fun has => ?_⟩⟩
  · have there : ∀ {fuel : Nat} {root : BlockId}, place ∈ module.tourFrom fuel root →
        module.Has place := by
      intro fuel
      induction fuel with
      | zero => intro root met; cases met
      | succ fuel ih =>
          intro root met
          obtain ⟨found, known, rfl | ⟨id, -, inside⟩⟩ := mem_tourFrom_succ.mp met
          · exact ⟨found, known⟩
          · obtain ⟨op, there, rfl | ⟨region, -, deeper⟩⟩ := mem_tourOp.mp inside
            · exact ⟨op, there⟩
            · exact ih deeper
    exact there met
  · cases place with
    | block id =>
        obtain ⟨found, known⟩ := has
        exact blocks known
    | op id =>
        obtain ⟨op, there⟩ := has
        obtain ⟨found, known, listed⟩ := assembled.numbered.placed there
        exact op_mem_tourFrom (blocks known) known listed there

/-- The walk comes to every operation once. -/
theorem Assembled.ops_covered :
    (module.tour.filterMap Place.op?).Perm ((List.range module.size).map OpId.mk) := by
  obtain ⟨once, all⟩ := assembled.tour_covers
  have distinct : (module.tour.filterMap Place.op?).Nodup := by
    refine once.filterMap fun first second id inFirst inSecond => ?_
    cases first <;> cases second <;> cases inFirst <;> cases inSecond
    rfl
  refine (List.perm_ext_iff_of_nodup distinct
    (List.nodup_range.map fun _ _ same => congrArg OpId.index same)).mpr fun id => ?_
  have met : id ∈ module.tour.filterMap Place.op? ↔ .op id ∈ module.tour := by
    refine List.mem_filterMap.trans ⟨?_, fun member => ⟨_, member, rfl⟩⟩
    rintro ⟨place, member, same⟩
    cases place <;> cases same
    exact member
  have small : module.Has (.op id) ↔ id.index < module.size := by
    refine ⟨fun ⟨op, there⟩ => index_lt_of_op? there, fun inside => ?_⟩
    exact ⟨module.ops[id.index], Array.getElem?_eq_getElem inside⟩
  rw [met, all, small]
  refine ⟨fun inside => List.mem_map.mpr ⟨id.index, List.mem_range.mpr inside, rfl⟩, ?_⟩
  rintro member
  obtain ⟨index, inside, rfl⟩ := List.mem_map.mp member
  exact List.mem_range.mp inside

omit assembled in
/-- A value is introduced where it comes from, if the module has it. -/
theorem mem_valuesAt {place : Place} {value : Value} :
    value ∈ module.valuesAt place ↔
      place = value.origin ∧ (module.valueType? value).isSome = true := by
  cases place with
  | block id =>
      cases value with
      | result op position =>
          cases known : module.block? id <;> simp [valuesAt, known, Value.origin]
      | arg block position =>
          by_cases same : id = block
          · subst same
            cases known : module.block? id <;> simp [valuesAt, known, Value.origin, valueType?]
          · cases known : module.block? id <;> simp [valuesAt, known, Value.origin, same]
  | op id =>
      cases value with
      | arg block position =>
          cases there : module.op? id <;> simp [valuesAt, there, Value.origin]
      | result op position =>
          by_cases same : id = op
          · subst same
            cases there : module.op? id <;> simp [valuesAt, there, Value.origin, valueType?]
          · cases there : module.op? id <;> simp [valuesAt, there, Value.origin, same]

omit assembled in
theorem valuesAt_nodup (place : Place) : (module.valuesAt place).Nodup := by
  cases place with
  | block id =>
      cases known : module.block? id <;> simp only [valuesAt, known]
      · exact .nil
      · exact List.nodup_range.map fun _ _ same => (Value.arg.inj same).2
  | op id =>
      cases there : module.op? id <;> simp only [valuesAt, there]
      · exact .nil
      · exact List.nodup_range.map fun _ _ same => (Value.result.inj same).2

/-- The walk meets all values that the module has, and none twice. -/
theorem Assembled.values_covered :
    (module.tour.flatMap module.valuesAt).Nodup ∧
      ∀ value, value ∈ module.tour.flatMap module.valuesAt ↔
        (module.valueType? value).isSome = true := by
  obtain ⟨once, all⟩ := assembled.tour_covers
  constructor
  · rw [List.nodup_flatMap]
    refine ⟨fun place _ => valuesAt_nodup place, once.imp ?_⟩
    intro first second different value inFirst inSecond
    exact different ((mem_valuesAt.mp inFirst).1.trans (mem_valuesAt.mp inSecond).1.symm)
  · intro value
    refine ⟨fun met => ?_, fun typed => ?_⟩
    · obtain ⟨place, -, inside⟩ := List.mem_flatMap.mp met
      exact (mem_valuesAt.mp inside).2
    · refine List.mem_flatMap.mpr ⟨value.origin, (all _).mpr ?_, mem_valuesAt.mpr ⟨rfl, typed⟩⟩
      cases value with
      | result op position =>
          obtain ⟨type, typed⟩ := Option.isSome_iff_exists.mp typed
          obtain ⟨found, there, -⟩ := Option.bind_eq_some_iff.mp typed
          exact ⟨found, there⟩
      | arg block position =>
          obtain ⟨type, typed⟩ := Option.isSome_iff_exists.mp typed
          obtain ⟨found, known, -⟩ := Option.bind_eq_some_iff.mp typed
          exact ⟨found, known⟩

end Once

end Module

end AffineKernel
