import Mathlib.Data.List.Chain
import Mathlib.Logic.Relation
import AffineKernel.IR.LoopBand
import AffineKernel.Proofs.IR.Ancestry

/-!
# Loop bands are maximal perfect nests

A loop nests another one perfectly if its first region consists of that loop and
of terminators (`Module.NestsPerfectly`). It nests at most one, and is nested by
at most one. What is inside is numbered after what is around it, so following a
nest inwards ends before as many steps as there are operations, and the bound on
a band never cuts it (`Numbered.bandFrom_maximal`). Bands that start at
different loops of one block share no loop: going outwards from a common loop
would meet one of the two first loops inside of the other
(`Forest.bands_disjoint`). `loopNests_maximal` puts this together for every
module that was assembled and every operation with a region.
-/

set_option autoImplicit false

namespace AffineKernel.Module

/-- A block consists of one loop, and of terminators. -/
def SoleLoop (module : Module) (found : Block) (inner : OpId) : Prop :=
  module.OfKind .affineFor inner ∧ ∃ front back, found.ops = front ++ inner :: back ∧
    ∀ id ∈ front ++ back, module.isTerminator id = true

/-- The first region of an operation consists of one loop, and of terminators. -/
def NestsPerfectly (module : Module) (outer inner : OpId) : Prop :=
  ∃ region found, module.region? outer 0 = some region ∧ module.block? region = some found ∧
    module.SoleLoop found inner

/-- The loops from one loop inwards, as far as they are nested perfectly. -/
structure MaximalBand (module : Module) (outer : OpId) (band : List LoopInfo) : Prop where
  starts : band.head? = some (module.loopInfo outer)
  loops : ∀ info ∈ band, info = module.loopInfo info.op ∧ module.OfKind .affineFor info.op
  nested : band.IsChain fun first second => module.NestsPerfectly first.op second.op
  stops : ∀ last ∈ band.getLast?, module.region? last.op 0 = none ∨
    ∃ region found, module.region? last.op 0 = some region ∧
      module.block? region = some found ∧ ¬ ∃ inner, module.SoleLoop found inner

variable {module : Module}

/-! ## The loop inside -/

theorem isLoop_iff {id : OpId} : module.isLoop id = true ↔ module.OfKind .affineFor id := by
  simp [isLoop, OfKind, Option.any_eq_true]

/-- A loop does not end a block. -/
theorem OfKind.not_terminator {id : OpId} (loop : module.OfKind .affineFor id) :
    module.isTerminator id = false := by
  obtain ⟨op, there, kind⟩ := loop
  simp [isTerminator, there, kind, OpKind.isTerminator]

theorem soleLoop?_eq_some_iff {found : Block} {inner : OpId} :
    module.soleLoop? found = some inner ↔ module.SoleLoop found inner := by
  constructor
  · intro sole
    unfold soleLoop? at sole
    split at sole
    · next id listed =>
      split at sole
      · next loop =>
        obtain rfl := Option.some.inj sole
        obtain ⟨front, back, split, before, -, after⟩ := List.filter_eq_cons_iff.mp listed
        refine ⟨isLoop_iff.mp loop, front, back, split, fun other member => ?_⟩
        rcases List.mem_append.mp member with early | late
        · simpa using before other early
        · simpa using List.filter_eq_nil_iff.mp after other late
      · cases sole
    · cases sole
  · rintro ⟨loop, front, back, split, ends⟩
    have before : front.filter (fun id => !module.isTerminator id) = [] :=
      List.filter_eq_nil_iff.mpr fun id member => by simp [ends id (List.mem_append_left _ member)]
    have after : back.filter (fun id => !module.isTerminator id) = [] :=
      List.filter_eq_nil_iff.mpr fun id member => by simp [ends id (List.mem_append_right _ member)]
    simp [soleLoop?, split, before, after, loop.not_terminator, isLoop_iff.mpr loop]

theorem innerLoop?_eq_some_iff {outer inner : OpId} :
    module.innerLoop? outer = some inner ↔ module.NestsPerfectly outer inner := by
  simp only [innerLoop?, NestsPerfectly, Option.bind_eq_bind, Option.bind_eq_some_iff,
    soleLoop?_eq_some_iff]
  exact ⟨fun ⟨region, first, found, known, sole⟩ => ⟨region, found, first, known, sole⟩,
    fun ⟨region, found, first, known, sole⟩ => ⟨region, first, found, known, sole⟩⟩

namespace NestsPerfectly

variable {outer inner : OpId}

theorem loop (nests : module.NestsPerfectly outer inner) : module.OfKind .affineFor inner := by
  obtain ⟨-, -, -, -, loop, -⟩ := nests
  exact loop

/-- The inner loop is listed by the first region of the outer one. -/
theorem listed (nests : module.NestsPerfectly outer inner) :
    ∃ op region found, module.op? outer = some op ∧ region ∈ op.regions ∧
      module.block? region = some found ∧ inner ∈ found.ops := by
  obtain ⟨region, found, first, known, -, front, back, split, -⟩ := nests
  obtain ⟨op, there, position⟩ := Option.bind_eq_some_iff.mp first
  exact ⟨op, region, found, there, List.mem_of_getElem? position, known, by simp [split]⟩

/-- The block of the inner loop is numbered after the block of the outer one. -/
theorem parent_lt (forest : module.Forest) (nests : module.NestsPerfectly outer inner)
    {outerOp innerOp : Operation} (outerThere : module.op? outer = some outerOp)
    (innerThere : module.op? inner = some innerOp) :
    outerOp.parent.index < innerOp.parent.index := by
  obtain ⟨op, region, found, there, member, known, listed⟩ := nests.listed
  obtain rfl := Option.some.inj (outerThere.symm.trans there)
  obtain ⟨op, found, parent⟩ := forest.listed known inner listed
  obtain rfl := Option.some.inj (innerThere.symm.trans found)
  exact parent ▸ (forest.region there region member).1

/-- The inner loop is numbered after the outer one. -/
theorem lt (numbered : module.Numbered) (nests : module.NestsPerfectly outer inner) :
    outer.index < inner.index := by
  obtain ⟨op, region, found, there, member, known, listed⟩ := nests.listed
  obtain ⟨-, around, aroundKnown, owned⟩ := numbered.region there region member
  obtain rfl := Option.some.inj (known.symm.trans aroundKnown)
  exact numbered.inner known owned inner listed

/-- A loop is nested by one loop at most. -/
theorem outer_unique (forest : module.Forest) {other : OpId}
    (nests : module.NestsPerfectly outer inner) (likewise : module.NestsPerfectly other inner) :
    outer = other := by
  obtain ⟨op, region, found, there, member, known, listed⟩ := nests.listed
  obtain ⟨op', region', found', there', member', known', listed'⟩ := likewise.listed
  obtain ⟨innerOp, innerThere, parent⟩ := forest.listed known inner listed
  obtain ⟨innerOp', innerThere', parent'⟩ := forest.listed known' inner listed'
  obtain rfl := Option.some.inj (innerThere.symm.trans innerThere')
  obtain rfl : region = region' := parent.symm.trans parent'
  exact forest.region_unique there member there' member'

end NestsPerfectly

/-- Following a perfect nest inwards ends. -/
theorem Numbered.nests_wellFounded (numbered : module.Numbered) :
    WellFounded fun inner outer => module.NestsPerfectly outer inner := by
  refine Subrelation.wf (fun {inner outer} nests => ?_)
    (measure fun id : OpId => module.size - id.index).wf
  obtain ⟨op, there, -⟩ := nests.loop
  have small : inner.index < module.size := index_lt_of_op? there
  have after := nests.lt numbered
  change module.size - inner.index < module.size - outer.index
  omega

/-! ## One band -/

/-- The band is what is met on the way inwards. -/
theorem head?_bandFrom (fuel : Nat) (outer : OpId) :
    (module.bandFrom fuel outer).head? = some outer := by
  cases fuel with
  | zero => rfl
  | succ fuel =>
      unfold bandFrom
      split <;> rfl

theorem isChain_bandFrom (fuel : Nat) (outer : OpId) :
    (module.bandFrom fuel outer).IsChain module.NestsPerfectly := by
  induction fuel generalizing outer with
  | zero => exact .singleton outer
  | succ fuel ih =>
      unfold bandFrom
      split
      · next inner found =>
        refine List.isChain_cons.mpr ⟨fun second next => ?_, ih inner⟩
        obtain rfl : inner = second :=
          Option.some.inj ((head?_bandFrom fuel inner).symm.trans next)
        exact innerLoop?_eq_some_iff.mp found
      · exact .singleton outer

theorem reaches_of_mem_bandFrom {fuel : Nat} {outer id : OpId}
    (member : id ∈ module.bandFrom fuel outer) :
    Relation.ReflTransGen module.NestsPerfectly outer id := by
  induction fuel generalizing outer with
  | zero =>
      obtain rfl := List.mem_singleton.mp member
      exact .refl
  | succ fuel ih =>
      unfold bandFrom at member
      split at member
      · next inner found =>
        rcases List.mem_cons.mp member with rfl | further
        · exact .refl
        · exact .head (innerLoop?_eq_some_iff.mp found) (ih further)
      · obtain rfl := List.mem_singleton.mp member
        exact .refl

/-- What is reached from a loop is a loop. -/
theorem OfKind.of_reaches {outer id : OpId} (loop : module.OfKind .affineFor outer)
    (reaches : Relation.ReflTransGen module.NestsPerfectly outer id) :
    module.OfKind .affineFor id := by
  induction reaches with
  | refl => exact loop
  | tail _ nests _ => exact nests.loop

/-- Behind the last operation there is no loop. -/
theorem innerLoop?_of_size_le {outer : OpId} (large : module.size ≤ outer.index) :
    module.innerLoop? outer = none := by
  have absent : module.op? outer = none := Array.getElem?_eq_none large
  simp [innerLoop?, region?, absent]

section Bound

variable (numbered : module.Numbered) {fuel : Nat} {outer : OpId}
  (enough : module.size ≤ outer.index + fuel)
include numbered enough

/-- The inner loop needs fewer steps. -/
theorem enough_inner {inner : OpId} (found : module.innerLoop? outer = some inner) :
    module.size ≤ inner.index + (fuel - 1) := by
  have after := (innerLoop?_eq_some_iff.mp found).lt numbered
  omega

/-- With enough steps the band ends where the nest does. -/
theorem bandFrom_stops {last : OpId} (final : (module.bandFrom fuel outer).getLast? = some last) :
    module.innerLoop? last = none := by
  induction fuel generalizing outer with
  | zero =>
      obtain rfl : outer = last := Option.some.inj final
      exact innerLoop?_of_size_le enough
  | succ fuel ih =>
      unfold bandFrom at final
      split at final
      · next inner found =>
        have nonempty : module.bandFrom fuel inner ≠ [] := by
          intro nil
          have first : (module.bandFrom fuel inner).head? = some inner := head?_bandFrom fuel inner
          rw [nil] at first
          cases first
        rw [List.getLast?_cons_of_ne_nil nonempty] at final
        exact ih (enough_inner numbered enough found) final
      · next none =>
        obtain rfl : outer = last := Option.some.inj final
        exact none

/-- With enough steps, more of them change nothing. -/
theorem bandFrom_more {further : Nat} (more : fuel ≤ further) :
    module.bandFrom further outer = module.bandFrom fuel outer := by
  induction fuel generalizing outer further with
  | zero =>
      cases further with
      | zero => rfl
      | succ further =>
          unfold bandFrom
          rw [innerLoop?_of_size_le (by simpa using enough)]
  | succ fuel ih =>
      cases further with
      | zero => exact absurd more (Nat.not_succ_le_zero fuel)
      | succ further =>
          unfold bandFrom
          split
          · next inner found =>
            rw [ih (enough_inner numbered enough found) (Nat.le_of_succ_le_succ more)]
          · rfl

end Bound

theorem stops_of_innerLoop? (forest : module.Forest) {last : OpId}
    (none : module.innerLoop? last = none) : module.region? last 0 = Option.none ∨
      ∃ region found, module.region? last 0 = some region ∧
        module.block? region = some found ∧ ¬ ∃ inner, module.SoleLoop found inner := by
  cases first : module.region? last 0 with
  | none => exact .inl rfl
  | some region =>
      obtain ⟨op, there, position⟩ := Option.bind_eq_some_iff.mp first
      obtain ⟨-, found, known, -⟩ :=
        forest.region there region (List.mem_of_getElem? position)
      refine .inr ⟨region, found, rfl, known, fun ⟨inner, sole⟩ => ?_⟩
      have nests := innerLoop?_eq_some_iff.mpr ⟨region, found, first, known, sole⟩
      rw [none] at nests
      cases nests

/-- A band is a maximal perfect nest. -/
theorem Numbered.bandFrom_maximal (numbered : module.Numbered) {outer : OpId}
    (loop : module.OfKind .affineFor outer) :
    module.MaximalBand outer ((module.bandFrom module.size outer).map module.loopInfo) where
  starts := by rw [List.head?_map, head?_bandFrom]; rfl
  loops := by
    intro info member
    obtain ⟨id, inside, rfl⟩ := List.mem_map.mp member
    exact ⟨rfl, loop.of_reaches (reaches_of_mem_bandFrom inside)⟩
  nested := (List.isChain_map _).mpr (isChain_bandFrom _ _)
  stops := by
    intro last final
    rw [List.getLast?_map] at final
    obtain ⟨id, inside, rfl⟩ := Option.map_eq_some_iff.mp final
    exact stops_of_innerLoop? numbered.toForest
      (bandFrom_stops numbered (Nat.le_add_left _ _) inside)

/-! ## All bands -/

/-- No loop occurs twice in a band. -/
theorem Numbered.bandFrom_nodup (numbered : module.Numbered) (fuel : Nat) (outer : OpId) :
    (module.bandFrom fuel outer).Nodup := by
  have increasing : (module.bandFrom fuel outer).Pairwise fun first second =>
      first.index < second.index :=
    List.isChain_iff_pairwise.mp
      ((isChain_bandFrom fuel outer).imp fun _ _ nests => nests.lt numbered)
  exact increasing.imp fun before same => absurd (same ▸ before) (Nat.lt_irrefl _)

/-- The block of what is reached is numbered after the block of the loop. -/
theorem Forest.parent_lt_of_reaches (forest : module.Forest) {outer inner : OpId}
    (reaches : Relation.TransGen module.NestsPerfectly outer inner)
    {outerOp innerOp : Operation} (outerThere : module.op? outer = some outerOp)
    (innerThere : module.op? inner = some innerOp) :
    outerOp.parent.index < innerOp.parent.index := by
  induction reaches generalizing innerOp with
  | single nests => exact nests.parent_lt forest outerThere innerThere
  | tail _ nests ih =>
      obtain ⟨op, -, -, there, -⟩ := nests.listed
      exact Nat.lt_trans (ih there) (nests.parent_lt forest there innerThere)

/-- Bands from different loops of one block have no loop in common. -/
theorem Forest.bands_disjoint (forest : module.Forest) {block : BlockId} {found : Block}
    (known : module.block? block = some found) {first second : OpId}
    (firstListed : first ∈ found.ops) (secondListed : second ∈ found.ops)
    (different : first ≠ second) (fuel : Nat) :
    (module.bandFrom fuel first).Disjoint (module.bandFrom fuel second) := by
  -- Neither of the two is inside of the other, since they share their block.
  have apart : ∀ {outer inner : OpId}, outer ∈ found.ops → inner ∈ found.ops → outer ≠ inner →
      ¬ Relation.ReflTransGen module.NestsPerfectly outer inner := by
    intro outer inner outerListed innerListed other reaches
    obtain ⟨outerOp, outerThere, outerParent⟩ := forest.listed known outer outerListed
    obtain ⟨innerOp, innerThere, innerParent⟩ := forest.listed known inner innerListed
    rcases Relation.reflTransGen_iff_eq_or_transGen.mp reaches with same | inside
    · exact other same.symm
    · have after := forest.parent_lt_of_reaches inside outerThere innerThere
      rw [outerParent, innerParent] at after
      exact Nat.lt_irrefl _ after
  intro id inFirst inSecond
  -- Outwards there is one way only.
  have outwards : Relator.RightUnique (Function.swap module.NestsPerfectly) :=
    fun _ _ _ nests likewise => nests.outer_unique forest likewise
  rcases Relation.ReflTransGen.total_of_right_unique outwards
    (reaches_of_mem_bandFrom inFirst).swap (reaches_of_mem_bandFrom inSecond).swap with way | way
  · exact apart secondListed firstListed different.symm way.swap
  · exact apart firstListed secondListed different way.swap

theorem loopNests_eq {func : OpId} {region : BlockId} {found : Block}
    (first : module.region? func 0 = some region) (known : module.block? region = some found) :
    module.loopNests func = (found.ops.filter module.isLoop).map fun outer =>
      (module.bandFrom module.size outer).map module.loopInfo := by
  simp [loopNests, first, known]

/-- However a module was assembled, following its perfect nests inwards ends, and the bands of an
operation with a region are one for each loop that stands in the block of its first region, in the
order of the block. Each of them is the maximal perfect nest from its loop inwards, which no larger
bound would make longer, and no loop occurs twice. -/
theorem loopNests_maximal (assembled : module.Assembled) {func : OpId} {op : Operation}
    {region : BlockId} {rest : List BlockId} (there : module.op? func = some op)
    (regions : op.regions = region :: rest) :
    ∃ found, module.block? region = some found ∧ found.parent = some func ∧
      WellFounded (fun inner outer => module.NestsPerfectly outer inner) ∧
      List.Forall₂ module.MaximalBand (found.ops.filter module.isLoop) (module.loopNests func) ∧
      (∀ fuel, module.size ≤ fuel →
        module.loopNests func = (found.ops.filter module.isLoop).map fun outer =>
          (module.bandFrom fuel outer).map module.loopInfo) ∧
      ((module.loopNests func).flatten.map (·.op)).Nodup := by
  have numbered := assembled.numbered
  obtain ⟨-, found, known, parent⟩ := numbered.region there region (by simp [regions])
  have first : module.region? func 0 = some region := by simp [region?, there, regions]
  have bands := loopNests_eq first known
  refine ⟨found, known, parent, numbered.nests_wellFounded, ?_, fun fuel enough => ?_, ?_⟩
  · rw [bands, List.forall₂_map_right_iff, List.forall₂_same]
    intro outer member
    exact numbered.bandFrom_maximal (isLoop_iff.mp (List.mem_filter.mp member).2)
  · rw [bands]
    refine List.map_congr_left fun outer _ => ?_
    rw [bandFrom_more numbered (Nat.le_add_left _ _) enough]
  · have flat : (module.loopNests func).flatten.map (·.op) =
        (found.ops.filter module.isLoop).flatMap (module.bandFrom module.size) := by
      rw [bands, List.map_flatten, List.map_map, List.flatMap_def]
      congr 1
      refine List.map_congr_left fun outer _ => ?_
      simp [Function.comp_def, loopInfo]
    rw [flat, List.nodup_flatMap]
    refine ⟨fun outer _ => numbered.bandFrom_nodup _ outer, ?_⟩
    have distinct := (assembled.listed_once known).filter module.isLoop
    refine distinct.imp_of_mem fun member member' different => ?_
    exact numbered.bands_disjoint known (List.mem_filter.mp member).1
      (List.mem_filter.mp member').1 different _

/-- A function with a perfect nest of two loops, and behind it a loop that holds two loops. -/
def branchingLoops : Module :=
  let func := (empty.create { kind := .func, regions := [[]] } (.atEnd body)).2
  let first := (func.create
    { kind := .affineFor, attributes := [("loop_name", .str "i")], regions := [[]] }
    (.atEnd ⟨1⟩)).2
  let nested := (first.create
    { kind := .affineFor, attributes := [("loop_name", .str "j")], regions := [[]] }
    (.atEnd ⟨2⟩)).2
  let yielding := (nested.create { kind := .yield } (.atEnd ⟨2⟩)).2
  let second := (yielding.create { kind := .affineFor, regions := [[]] } (.atEnd ⟨1⟩)).2
  let left := (second.create { kind := .affineFor, regions := [[]] } (.atEnd ⟨4⟩)).2
  (left.create { kind := .affineFor, regions := [[]] } (.atEnd ⟨4⟩)).2

theorem branchingLoops_assembled : branchingLoops.Assembled :=
  .create _ (.create _ (.create _ (.create _ (.create _ (.create _ (.create _ .empty
    rfl) rfl) rfl) rfl) rfl) rfl) rfl

theorem branchingLoops_bands :
    branchingLoops.Assembled ∧
      branchingLoops.loopNests ⟨0⟩ = [[⟨⟨1⟩, some "i"⟩, ⟨⟨2⟩, some "j"⟩], [⟨⟨4⟩, none⟩]] ∧
      branchingLoops.MaximalBand ⟨1⟩ [⟨⟨1⟩, some "i"⟩, ⟨⟨2⟩, some "j"⟩] ∧
      branchingLoops.MaximalBand ⟨4⟩ [⟨⟨4⟩, none⟩] := by
  obtain ⟨found, known, -, -, bands, -, -⟩ :=
    @loopNests_maximal _ branchingLoops_assembled ⟨0⟩ _ _ _ rfl rfl
  obtain rfl : (⟨[], [⟨1⟩, ⟨4⟩], some ⟨0⟩⟩ : Block) = found := Option.some.inj known
  have listed : branchingLoops.loopNests ⟨0⟩ =
      [[⟨⟨1⟩, some "i"⟩, ⟨⟨2⟩, some "j"⟩], [⟨⟨4⟩, none⟩]] := by decide +kernel
  rw [listed] at bands
  cases bands with
  | cons first rest =>
      cases rest with
      | cons second _ => exact ⟨branchingLoops_assembled, listed, first, second⟩

end AffineKernel.Module
