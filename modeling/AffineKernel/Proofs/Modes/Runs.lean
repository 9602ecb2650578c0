import AffineKernel.Proofs.Modes.Abreast
import AffineKernel.Proofs.Semantics.Control

/-!
# Runs of parallel modules

A pure operation of one of two parallel modules is a step of its run alone.
Operations that act are paired, and as their operands are twins, they do the
same to the heap: they allocate, store, branch and repeat alike
(`runOp_accords`). So two runs of a block that start abreast and both end have
the same outcome (`runBlock_accords`), and two calls of a function reply the
same (`call_eq_of_ok`). The depths that the runs are allowed to reach may
differ.
-/

set_option autoImplicit false

namespace AffineKernel.Machine

variable {module other : Module} {frame twin : Frame} {id partner : OpId} {op mate : Operation}
  {block : BlockId} {rest others : List OpId} {machine final : Machine}

/-- Two iterations keep what two rounds of them keep. -/
theorem iterate_both (relates : Machine → Machine → Prop) {body leap : Int → Exec Unit} {step : Int}
    (each : ∀ current machine final, relates machine final →
      Both (body current) (leap current) machine final fun _ _ after last => relates after last)
    (count : Nat) (current : Int) {machine final : Machine} (related : relates machine final) :
    Both (iterate body step count current) (iterate leap step count current) machine final
      fun _ _ after last => relates after last := by
  induction count generalizing current machine final with
  | zero =>
      simp only [iterate, both_pure]
      exact related
  | succ count ih =>
      simp only [iterate, both_bind]
      exact (each current machine final related).mono fun _ _ _ _ still => ih (current + step) still

/-- The heaps after two runs are equal, and they spare what is read. -/
structure Leaves (module other : Module) (frame twin : Frame) (machine final after last : Machine) :
    Prop where
  same : after.heap = last.heap
  left : Protects module frame machine.heap after.heap
  right : Protects other twin final.heap last.heap

namespace Leaves

variable {after last : Machine}

theorem of_steady (same : machine.heap = final.heap) (steady : after.heap = machine.heap)
    (also : last.heap = final.heap) : Leaves module other frame twin machine final after last :=
  ⟨steady.trans (same.trans also.symm), .of_eq steady, .of_eq also⟩

theorem trans {next further : Frame} {late end_ : Machine}
    (first : Leaves module other frame twin machine final after last) (keeps : frame.Keeps next)
    (also : twin.Keeps further) (second : Leaves module other next further after last late end_) :
    Leaves module other frame twin machine final late end_ :=
  ⟨second.same, first.left.trans keeps second.left, first.right.trans also second.right⟩

/-- Frames stay abreast. -/
theorem abreast (leaves : Leaves module other frame twin machine final after last)
    (same : machine.heap = final.heap) (abreast : Abreast module other frame twin machine.heap) :
    Abreast module other frame twin after.heap :=
  abreast.later leaves.left (leaves.same ▸ same ▸ leaves.right)

end Leaves

/-- The values of a frame were made before the operations of a block that was entered. -/
def Entered (module : Module) (block : BlockId) (frame : Frame) : Prop :=
  ∀ found, module.block? block = some found → frame.Past module block found.ops

/-- If two runs of a block from frames abreast on equal heaps both end, they end alike. -/
def Accords (module other : Module) (run leap : RunBlock) : Prop :=
  ∀ ⦃block : BlockId⦄ ⦃args : List Datum⦄ ⦃frame twin : Frame⦄ ⦃machine final : Machine⦄,
    machine.heap = final.heap →
    Abreast module other (frame.enter block args) (twin.enter block args) machine.heap →
    Entered module block (frame.enter block args) → Entered other block (twin.enter block args) →
    Both (run block args frame) (leap block args twin) machine final fun values results after
      last =>
      values = results ∧
        Leaves module other (frame.enter block args) (twin.enter block args) machine final after
          last

/-- Steps of two runs after which both return the same or both go on abreast. -/
def Step.Accord (module other : Module) (frame twin : Frame) (block : BlockId)
    (rest others : List OpId) (heap : Array Buffer) : Step → Step → Prop
  | .next next, .next further => Abreast module other next further heap ∧ frame.Keeps next ∧
      twin.Keeps further ∧ next.Past module block rest ∧ further.Past other block others
  | .returned values, .returned results => values = results
  | _, _ => False

/-- Frames that stay as they are. -/
theorem Step.Accord.stay {heap : Array Buffer} (abreast : Abreast module other frame twin heap)
    (past : frame.Past module block (id :: rest))
    (also : twin.Past other block (partner :: others)) :
    Step.Accord module other frame twin block rest others heap (.next frame) (.next twin) :=
  ⟨abreast, .refl frame, .refl twin, past.tail, also.tail⟩

/-! ## Regions -/

/-- A region is entered before all of its operations. -/
theorem entered_region (forest : module.Forest) (found : module.op? id = some op)
    (parent : op.parent = block) {region : BlockId} (owned : region ∈ op.regions)
    (past : frame.Past module block rest) (args : List Datum) :
    block.index < region.index ∧ Entered module region (frame.enter region args) := by
  subst parent
  have inner := (forest.region found region owned).1
  exact ⟨inner, fun _ known => past.enter inner (forest.listed known)⟩

section Steps

variable {run leap : RunBlock} (parallel : Module.Parallel module other)
  (accords : Accords module other run leap) (found : module.op? id = some op)
  (matched : other.op? partner = some mate) (parent : op.parent = block)
  (alsoParent : mate.parent = block) (past : frame.Past module block (id :: rest))
  (also : twin.Past other block (partner :: others))

section Regions

variable (regions : op.regions = mate.regions)
include parallel accords found matched parent alsoParent past also regions

/-- Both runs run a region with the same scalars. -/
theorem region_accords {region : BlockId} (owned : region ∈ op.regions) {args : List Datum}
    (scalars : ∀ datum ∈ args, ∃ scalar, datum = .scalar scalar) (same : machine.heap = final.heap)
    (abreast : Abreast module other frame twin machine.heap) :
    Both (run region args frame) (leap region args twin) machine final fun values results after
      last =>
      values = results ∧ Leaves module other frame twin machine final after last := by
  obtain ⟨inner, entered⟩ := entered_region parallel.left.forest found parent owned past args
  obtain ⟨-, alsoEntered⟩ :=
    entered_region parallel.right.forest matched alsoParent (regions ▸ owned) also args
  refine (accords same (abreast.enter past also inner scalars) entered alsoEntered).mono ?_
  rintro values results after last ⟨equal, leaves⟩
  exact ⟨equal, Leaves.trans (.of_steady same rfl rfl) (past.keeps_enter inner)
    (also.keeps_enter inner) leaves⟩

theorem loop_accords (alike : (⟨module, id, op⟩ : Site).Alike ⟨other, partner, mate⟩ frame twin)
    (same : machine.heap = final.heap) (abreast : Abreast module other frame twin machine.heap) :
    Both (runLoop run ⟨module, id, op⟩ frame) (runLoop leap ⟨other, partner, mate⟩ twin) machine
      final
      fun _ _ after last => Leaves module other frame twin machine final after last := by
  unfold runLoop
  rw [both_bind]
  refine (alike.loopRange_agrees machine final).mono ?_
  rintro range _ start begun ⟨rfl, steady, alsoSteady⟩
  rw [both_bind, ← regions]
  cases first : op.regions.head? with
  | none => exact Both.throw_left _ _
  | some body =>
      have owned := List.mem_of_head? first
      refine (both_pure body body).mpr ?_
      rw [both_bind]
      refine (iterate_both (Leaves module other frame twin machine final) ?_ _ _
        (.of_steady same steady alsoSteady)).mono ?_
      · intro current late behind leaves
        rw [both_bind]
        refine (region_accords parallel accords found matched parent alsoParent past also regions
          owned ?_ leaves.same (leaves.abreast same abreast)).mono ?_
        · simp
        · rintro values results after last ⟨-, further⟩
          exact (both_pure ..).mpr (leaves.trans (.refl frame) (.refl twin) further)
      · rintro - - after last leaves
        refine (Site.Alike.checked_agrees _ after last).mono ?_
        rintro - - done finished ⟨-, kept, alsoKept⟩
        exact leaves.trans (.refl frame) (.refl twin) (.of_steady leaves.same kept alsoKept)

theorem conditional_accords
    (alike : (⟨module, id, op⟩ : Site).Alike ⟨other, partner, mate⟩ frame twin)
    (same : machine.heap = final.heap) (abreast : Abreast module other frame twin machine.heap) :
    Both (runConditional run ⟨module, id, op⟩ frame)
      (runConditional leap ⟨other, partner, mate⟩ twin)
      machine final fun values results after last =>
        values = results ∧ Leaves module other frame twin machine final after last := by
  unfold runConditional
  rw [both_bind]
  refine (alike.branch_agrees regions machine final).mono ?_
  rintro region _ start begun ⟨⟨rfl, inside⟩, steady, alsoSteady⟩
  have leaves : Leaves module other frame twin machine final start begun :=
    .of_steady same steady alsoSteady
  cases region with
  | none => exact (both_pure ..).mpr ⟨rfl, leaves⟩
  | some region =>
      refine (region_accords parallel accords found matched parent alsoParent past also regions
        (inside region rfl) ?_ leaves.same (steady ▸ abreast)).mono ?_
      · simp
      · rintro values results after last ⟨equal, further⟩
        exact ⟨equal, leaves.trans (.refl frame) (.refl twin) further⟩

end Regions

/-- Allocations on equal heaps append the same buffer. -/
theorem alloc_agrees {first second : Site} (alike : first.Alike second frame twin)
    (same : machine.heap = final.heap) :
    Both first.alloc second.alloc machine final fun handle target after last =>
      handle = target ∧ handle = machine.heap.size ∧ ∃ buffer,
        after.heap = machine.heap.push buffer ∧ last.heap = machine.heap.push buffer := by
  unfold Site.alloc
  rw [both_bind, ← alike.results]
  cases first.op.results.head? with
  | none => exact Both.throw_left _ _
  | some type =>
      refine (both_pure type type).mpr ?_
      rw [both_bind]
      refine (Site.Alike.checked_agrees _ machine final).mono ?_
      rintro - - after last ⟨-, kept, alsoKept⟩
      rw [both_bind, both_get, both_bind, both_set, both_pure, kept, alsoKept]
      exact ⟨by rw [same], rfl, _, rfl, by rw [same]⟩

/-- A store protects what is read. -/
theorem protects_of_modify (parted : module.Parted) (coherent : frame.Coherent module machine.heap)
    (found : module.op? id = some op) (kind : op.kind = .store) {value : Value} {handle : Nat}
    {change : Buffer → Buffer} {after : Machine} (listed : op.operands[1]? = some value)
    (placed : frame.find? value = some (.buffer handle))
    (changed : after.heap = machine.heap.modify handle change) :
    Protects module frame machine.heap after.heap where
  size_le := by simp [changed]
  kept memref target reads known _ := by
    rw [changed, Array.getElem?_modify]
    split
    · rename_i hit
      subst hit
      obtain rfl := coherent.single value memref handle placed known
      exact absurd ⟨id, op, found, kind, listed⟩ (parted.apart reads)
    · rfl

/-! ## Operations -/

variable (once : id ∉ rest) (alsoOnce : partner ∉ others) (parted : module.Parted)
  (alsoParted : other.Parted)

/-- What two steps that both end leave behind. -/
def StepsAlike (module other : Module) (frame twin : Frame) (block : BlockId)
    (rest others : List OpId) (machine final : Machine) (step leap : Step) (after last : Machine) :
    Prop :=
  Leaves module other frame twin machine final after last ∧
    Step.Accord module other frame twin block rest others after.heap step leap

section

omit parallel
variable (same : machine.heap = final.heap)
  (abreast : Abreast module other frame twin machine.heap)
  (alike : (⟨module, id, op⟩ : Site).Alike ⟨other, partner, mate⟩ frame twin)
  (acts : op.isPure = false) (alsoActs : mate.isPure = false)
  (ranked : module.rank id.index = other.rank partner.index)
include found matched parent alsoParent past also once alsoOnce same abreast alike acts alsoActs
  ranked

/-- Both runs read what a reduction has accumulated. -/
theorem compute_accords (computes : op.kind.computes = true) :
    Both (runOp module run id frame) (runOp other leap partner twin) machine final
      (StepsAlike module other frame twin block rest others machine final) := by
  rw [runOp_computes found computes, runOp_computes matched (alike.kind ▸ computes)]
  unfold defining
  rw [both_bind]
  refine (alike.value_agrees fun _ _ _ handle _ _ _ _ => by rw [same]).mono ?_
  rintro scalar _ after last ⟨rfl, steady, alsoSteady⟩
  have leaves : Leaves module other frame twin machine final after last :=
    .of_steady same steady alsoSteady
  refine (both_pure ..).mpr ⟨leaves, ?_, past.keeps_define List.mem_cons_self _,
    also.keeps_define List.mem_cons_self _, past.define once found parent _,
    also.define alsoOnce matched alsoParent _⟩
  exact (leaves.abreast same abreast).define past List.mem_cons_self also List.mem_cons_self found
    matched acts alsoActs ranked fun handle same => nomatch same

/-- Both runs receive a new buffer. -/
theorem allocation_accords (kind : op.kind = .alloc) :
    Both (runOp module run id frame) (runOp other leap partner twin) machine final
      (StepsAlike module other frame twin block rest others machine final) := by
  rw [runOp_alloc found kind, runOp_alloc matched (alike.kind ▸ kind), both_bind]
  refine (alloc_agrees alike same).mono ?_
  rintro handle _ after last ⟨rfl, rfl, buffer, changed, alsoChanged⟩
  have leaves : Leaves module other frame twin machine final after last :=
    ⟨changed.trans alsoChanged.symm, changed ▸ .push buffer, by
      rw [alsoChanged, same]
      exact .push buffer⟩
  refine (both_pure ..).mpr ⟨leaves, ?_, past.keeps_define List.mem_cons_self _,
    also.keeps_define List.mem_cons_self _, past.define once found parent _,
    also.define alsoOnce matched alsoParent _⟩
  refine (leaves.abreast same abreast).define past List.mem_cons_self also List.mem_cons_self found
    matched acts alsoActs ranked ?_
  rintro handle ⟨⟩
  refine ⟨by simp [changed], fun value placed => ?_, fun value placed => ?_⟩
  · exact Nat.lt_irrefl _ (abreast.left.valid value _ placed)
  · exact Nat.lt_irrefl _ (abreast.right.valid value _ placed)

end

include parallel accords parent alsoParent past also once alsoOnce parted alsoParted

/-- Operations that act alike do the same. -/
theorem runOp_accords (mates : Module.Mates module other id partner)
    (found : module.op? id = some op) (matched : other.op? partner = some mate)
    (same : machine.heap = final.heap) (abreast : Abreast module other frame twin machine.heap) :
    Both (runOp module run id frame) (runOp other leap partner twin) machine final
      (StepsAlike module other frame twin block rest others machine final) := by
  obtain ⟨_, _, known, fits, acts, kinds, attributes, results, regions, operands⟩ := mates.ops
  cases found.symm.trans known
  cases matched.symm.trans fits
  have alsoActs : mate.isPure = false := by
    rw [← acts, Operation.isPure, Operation.isPure, kinds, attributes]
  have alike : (⟨module, id, op⟩ : Site).Alike ⟨other, partner, mate⟩ frame twin :=
    abreast.alike parallel kinds attributes results operands
  have stays : ∀ {after last : Machine}, Leaves module other frame twin machine final after last →
      StepsAlike module other frame twin block rest others machine final (.next frame)
        (.next twin) after last := fun leaves =>
    ⟨leaves, .stay (leaves.abreast same abreast) past also⟩
  cases kind : op.kind with
  | func =>
      rw [runOp_idle found (.inr kind), runOp_idle matched (.inr (kinds ▸ kind)), both_pure]
      exact stays (.of_steady same rfl rfl)
  | yield =>
      rw [runOp_idle found (.inl kind), runOp_idle matched (.inl (kinds ▸ kind)), both_pure]
      exact stays (.of_steady same rfl rfl)
  | ret =>
      rw [runOp_ret found kind, runOp_ret matched (kinds ▸ kind), both_bind]
      refine (lookups_agree alike.operands machine final).mono ?_
      rintro values _ after last ⟨rfl, steady, alsoSteady⟩
      exact (both_pure ..).mpr ⟨.of_steady same steady alsoSteady, rfl⟩
  | call => exact absurd kind (parted.uncalled found)
  | affineFor =>
      rw [runOp_loop found kind, runOp_loop matched (kinds ▸ kind), both_bind]
      refine (loop_accords parallel accords found matched parent alsoParent past also regions alike
        same abreast).mono ?_
      exact fun _ _ after last leaves => (both_pure ..).mpr (stays leaves)
  | affineIf =>
      rw [runOp_conditional found kind, runOp_conditional matched (kinds ▸ kind), both_bind]
      refine (conditional_accords parallel accords found matched parent alsoParent past also regions
        alike same abreast).mono ?_
      rintro values _ after last ⟨rfl, leaves⟩
      cases values with
      | none => exact (both_pure ..).mpr (stays leaves)
      | some values => exact (both_pure ..).mpr ⟨leaves, rfl⟩
  | store =>
      rw [runOp_store found kind, runOp_store matched (kinds ▸ kind), both_bind]
      refine (alike.store_agrees same).mono ?_
      rintro _ _ after last ⟨value, target, handle, change, listed, placed, alsoListed, alsoPlaced,
        changed, alsoChanged⟩
      refine (both_pure ..).mpr (stays ⟨changed.trans alsoChanged.symm, ?_, ?_⟩)
      · exact protects_of_modify parted abreast.left found kind listed placed changed
      · exact protects_of_modify alsoParted (same ▸ abreast.right) matched (kinds ▸ kind) alsoListed
          alsoPlaced (same ▸ alsoChanged)
  | alloc =>
      exact allocation_accords found matched parent alsoParent past also once alsoOnce same abreast
        alike acts alsoActs mates.rank kind
  | _ =>
      refine compute_accords found matched parent alsoParent past also once alsoOnce same abreast
        alike acts alsoActs mates.rank ?_
      rw [kind]
      rfl

end Steps

/-! ## Blocks -/

/-- Operations of a block that are to be run in a frame. -/
structure Upcoming (module : Module) (block : BlockId) (ops : List OpId) (frame : Frame) :
    Prop where
  listed : ∀ id ∈ ops, ∃ op, module.op? id = some op ∧ op.parent = block
  once : ops.Nodup
  past : frame.Past module block ops

/-- After the first one. -/
theorem Upcoming.next (upcoming : Upcoming module block (id :: rest) frame) {next : Frame}
    (past : next.Past module block rest) : Upcoming module block rest next where
  listed later member := upcoming.listed later (List.mem_cons_of_mem _ member)
  once := (List.nodup_cons.mp upcoming.once).2
  past := past

/-- A pure operation computes a scalar. -/
theorem runOp_pure_ok {run : RunBlock} {step : Step} {after : Machine}
    (found : module.op? id = some op)
    (pure : op.isPure = true) (ran : runOp module run id frame machine = .ok step after) :
    ∃ scalar, step = .next (frame.define (.result id 0) (.scalar scalar)) ∧
      (⟨module, id, op⟩ : Site).value frame machine = .ok scalar after := by
  rw [runOp_computes found (Operation.computes_of_isPure pure)] at ran
  obtain ⟨scalar, middle, computed, rest⟩ := EStateM.bind_eq_ok ran
  cases rest
  exact ⟨scalar, rfl, computed⟩

theorem effects_cons (found : module.op? id = some op) (rest : List OpId) :
    module.effects (id :: rest) =
      if op.isPure then module.effects rest else id :: module.effects rest := by
  rw [Module.effects, List.filter_cons, Module.acts_iff found]
  cases op.isPure <;> rfl

/-- Two runs of operations end alike. -/
abbrev EndAlike (module other : Module) (frame twin : Frame) (machine final : Machine)
    (values results : Option (List Datum)) (after last : Machine) : Prop :=
  values = results ∧ Leaves module other frame twin machine final after last

section Alone

variable {run : RunBlock} (same : machine.heap = final.heap)
  (abreast : Abreast module other frame twin machine.heap)
include same abreast

/-- The first run computes a scalar. -/
theorem runOps_left {second : Exec (Option (List Datum))} (found : module.op? id = some op)
    (pure : op.isPure = true) (parent : op.parent = block)
    (upcoming : Upcoming module block (id :: rest) frame)
    (forward : ∀ {next : Frame} {middle : Machine}, Upcoming module block rest next →
      middle.heap = final.heap → Abreast module other next twin middle.heap →
      Both (runOps (runOp module run) rest next) second middle final
        (EndAlike module other next twin middle final)) :
    Both (runOps (runOp module run) (id :: rest) frame) second machine final
      (EndAlike module other frame twin machine final) := by
  refine Both.left fun step middle ran => ?_
  obtain ⟨scalar, rfl, computed⟩ := runOp_pure_ok found pure ran
  have steady := Site.value_steady computed
  have next := upcoming.next (upcoming.past.define (List.nodup_cons.mp upcoming.once).1 found parent
    (.scalar scalar))
  refine (forward next (steady.trans same) (steady ▸ abreast.compute_left upcoming.past
    List.mem_cons_self found pure rfl computed)).mono ?_
  rintro values results after last ⟨equal, leaves⟩
  exact ⟨equal, leaves.same, Protects.trans (.of_eq steady)
    (upcoming.past.keeps_define List.mem_cons_self _) leaves.left, leaves.right⟩

/-- The second run computes a scalar. -/
theorem runOps_right {first : Exec (Option (List Datum))} (matched : other.op? partner = some mate)
    (pure : mate.isPure = true) (parent : mate.parent = block)
    (upcoming : Upcoming other block (partner :: others) twin)
    (forward : ∀ {next : Frame} {middle : Machine}, Upcoming other block others next →
      machine.heap = middle.heap → Abreast module other frame next machine.heap →
      Both first (runOps (runOp other run) others next) machine middle
        (EndAlike module other frame next machine middle)) :
    Both first (runOps (runOp other run) (partner :: others) twin) machine final
      (EndAlike module other frame twin machine final) := by
  refine Both.right fun step middle ran => ?_
  obtain ⟨scalar, rfl, computed⟩ := runOp_pure_ok matched pure ran
  have steady := Site.value_steady computed
  have still := abreast.symm.compute_left upcoming.past List.mem_cons_self matched pure same.symm
    computed
  have next := upcoming.next (upcoming.past.define (List.nodup_cons.mp upcoming.once).1 matched
    parent (.scalar scalar))
  refine (forward next (same.trans steady.symm) still.symm).mono ?_
  rintro values results after last ⟨equal, leaves⟩
  exact ⟨equal, leaves.same, leaves.left, Protects.trans (.of_eq steady)
    (upcoming.past.keeps_define List.mem_cons_self _) leaves.right⟩

end Alone

section Blocks

variable {run leap : RunBlock} (parallel : Module.Parallel module other)
  (accords : Accords module other run leap) (parted : module.Parted) (alsoParted : other.Parted)
include parallel accords parted alsoParted

/-- Operations of two blocks do the same if those of them that act are mates. -/
theorem runOps_accords : ∀ (ops partners : List OpId) {frame twin : Frame}
    {machine final : Machine}, Upcoming module block ops frame →
    Upcoming other block partners twin →
    List.Forall₂ (Module.Mates module other) (module.effects ops) (other.effects partners) →
    machine.heap = final.heap → Abreast module other frame twin machine.heap →
    Both (runOps (runOp module run) ops frame) (runOps (runOp other leap) partners twin) machine
      final
      (EndAlike module other frame twin machine final)
  | [], [], _, _, _, _, _, _, _, same, _ => (both_pure ..).mpr ⟨rfl, .of_steady same rfl rfl⟩
  | id :: rest, [], _, _, _, _, upcoming, also, mates, same, abreast => by
      obtain ⟨op, found, parent⟩ := upcoming.listed id List.mem_cons_self
      rw [effects_cons found] at mates
      split at mates
      · rename_i pure
        exact runOps_left same abreast found pure parent upcoming fun upcoming same abreast =>
          runOps_accords rest [] upcoming also mates same abreast
      · cases mates
  | [], partner :: others, _, _, _, _, upcoming, also, mates, same, abreast => by
      obtain ⟨mate, matched, parent⟩ := also.listed partner List.mem_cons_self
      rw [effects_cons matched] at mates
      split at mates
      · rename_i pure
        exact runOps_right same abreast matched pure parent also fun also same abreast =>
          runOps_accords [] others upcoming also mates same abreast
      · cases mates
  | id :: rest, partner :: others, frame, twin, machine, final, upcoming, also, mates, same,
    abreast => by
      obtain ⟨op, found, parent⟩ := upcoming.listed id List.mem_cons_self
      obtain ⟨mate, matched, alsoParent⟩ := also.listed partner List.mem_cons_self
      by_cases pure : op.isPure = true
      · rw [effects_cons found, if_pos pure] at mates
        exact runOps_left same abreast found pure parent upcoming fun upcoming same abreast =>
          runOps_accords rest (partner :: others) upcoming also mates same abreast
      by_cases alsoPure : mate.isPure = true
      · rw [effects_cons matched, if_pos alsoPure] at mates
        exact runOps_right same abreast matched alsoPure alsoParent also fun also same abreast =>
          runOps_accords (id :: rest) others upcoming also mates same abreast
      rw [effects_cons found, if_neg pure, effects_cons matched, if_neg alsoPure] at mates
      obtain ⟨here, later⟩ := List.forall₂_cons.mp mates
      rw [runOps, runOps, both_bind]
      refine (runOp_accords parallel accords parent alsoParent upcoming.past also.past
        (List.nodup_cons.mp upcoming.once).1 (List.nodup_cons.mp also.once).1 parted alsoParted here
        found matched same abreast).mono ?_
      rintro step leapt middle between ⟨leaves, accord⟩
      cases step with
      | returned values =>
          cases leapt with
          | next further => exact accord.elim
          | returned results =>
              obtain rfl : values = results := accord
              exact (both_pure ..).mpr ⟨rfl, leaves⟩
      | next next =>
          cases leapt with
          | returned results => exact accord.elim
          | next further =>
              obtain ⟨still, keeps, alsoKeeps, nextPast, furtherPast⟩ := accord
              refine (runOps_accords rest others (upcoming.next nextPast)
                (also.next furtherPast) later leaves.same still).mono ?_
              rintro values results after last ⟨equal, ending⟩
              exact ⟨equal, leaves.trans keeps alsoKeeps ending⟩
termination_by ops partners => ops.length + partners.length

end Blocks

/-- **Runs of parallel modules.** Runs of a block end alike, whatever the depths that they may
reach. -/
theorem runBlock_accords (parallel : Module.Parallel module other) (parted : module.Parted)
    (alsoParted : other.Parted) : ∀ depth further : Nat,
    Accords module other (runBlock module depth) (runBlock other further)
  | 0, _ => fun _ _ _ _ _ _ _ _ _ _ => Both.throw_left _ _
  | _ + 1, 0 => fun _ _ _ _ _ _ _ _ _ _ => Both.throw_right _ _
  | depth + 1, further + 1 => by
      intro block args frame twin machine final same abreast entered alsoEntered
      have inner := runBlock_accords parallel parted alsoParted depth further
      rw [runBlock, runBlock]
      dsimp only
      cases found : module.block? block with
      | none => exact Both.throw_left _ _
      | some listing =>
          obtain ⟨partner, known⟩ := parallel.exists_block found
          rw [known]
          exact runOps_accords parallel inner parted alsoParted listing.ops partner.ops
            ⟨parallel.left.forest.listed found, parallel.left.listed_once found,
              entered listing found⟩
            ⟨parallel.right.forest.listed known, parallel.right.listed_once known,
              alsoEntered partner known⟩
            (parallel.block found known).2 same abreast

/-! ## Calls -/

/-- A function is called with the handles of buffers. -/
theorem Abreast.called (module other : Module) (body : BlockId) {heap : Array Buffer}
    {base count : Nat}
    (small : base + count ≤ heap.size) :
    Abreast module other (Frame.enter [] body (handles base count))
      (Frame.enter [] body (handles base count)) heap := by
  have cases : ∀ {value : Value} {datum : Datum},
      (Frame.enter [] body (handles base count)).find? value = some datum →
      ∃ position, value = .arg body position ∧ datum = .buffer (base + position) ∧ position <
        count := by
    intro value datum known
    rcases Frame.find?_enter_cases known with ⟨position, same, given⟩ | old
    · have inside : position < count := by
        simpa [handles] using (List.getElem?_eq_some_iff.mp given).1
      simp only [handles, List.getElem?_map, List.getElem?_range inside, Option.map_some,
        Option.some.injEq] at given
      exact ⟨position, same, given.symm, inside⟩
    · cases old
  have coherent : ∀ module : Module,
      (Frame.enter [] body (handles base count)).Coherent module heap := by
    refine fun module => ⟨fun value handle known => ?_, fun value second handle known again => ?_,
      fun id op datum _ _ known => ?_⟩
    · obtain ⟨position, -, same, inside⟩ := cases known
      cases same
      omega
    · obtain ⟨position, rfl, same, -⟩ := cases known
      obtain ⟨place, rfl, also, -⟩ := cases again
      cases same
      rw [Nat.add_left_cancel (Datum.buffer.inj also)]
    · obtain ⟨position, same, -⟩ := cases known
      cases same
  refine ⟨coherent module, coherent other, fun block position first second known again =>
    Option.some.inj (known.symm.trans again), fun id op partner mate first second _ _ _ _ _ known =>
      ?_⟩
  obtain ⟨position, same, -⟩ := cases known
  cases same

theorem entered_called (module : Module) (body : BlockId) (args : List Datum) :
    Entered module body (Frame.enter [] body args) := by
  intro found _ value datum known
  rcases Frame.find?_enter_cases known with ⟨position, rfl, -⟩ | old
  · exact Nat.le_refl _
  · cases old

/-- **Calls of parallel modules.** If a function of one module and the function of its name in
another, parallel module have the same body, then calls of them that both succeed reply the same. -/
theorem call_eq_of_ok (parallel : Module.Parallel module other) (parted : module.Parted)
    (alsoParted : other.Parted) {name : String} {func : OpId} {body : BlockId}
    (named : module.function? name = some func) (alsoNamed : other.function? name = some func)
    (region : module.region? func 0 = some body) (alsoRegion : other.region? func 0 = some body)
    (depth further : Nat) (buffers : List Buffer) (machine : Machine) {results ends : List Scalar}
    (replied : (call module depth name buffers machine).1.results = .ok results)
    (answered : (call other further name buffers machine).1.results = .ok ends) :
    (call module depth name buffers machine).1 = (call other further name buffers machine).1 := by
  rw [call_apply named] at replied ⊢
  rw [call_apply alsoNamed] at answered ⊢
  have runs : Both (runFunction module (runBlock module depth) func name
        (handles machine.heap.size buffers.length))
      (runFunction other (runBlock other further) func name
        (handles machine.heap.size buffers.length))
      ⟨machine.heap ++ buffers.toArray, machine.log⟩ ⟨machine.heap ++ buffers.toArray, machine.log⟩
      fun values results after last => values = results ∧ after.heap = last.heap := by
    unfold runFunction
    rw [region, alsoRegion]
    dsimp only
    cases found : module.block? body with
    | none => exact Both.throw_left _ _
    | some listing =>
        obtain ⟨partner, known⟩ := parallel.exists_block found
        rw [known, require_some, require_some, pure_bind, pure_bind, (parallel.block found known).1]
        split
        · exact Both.throw_bind_left _ _ _
        · rw [both_bind, emit, both_modify, both_bind]
          refine (runBlock_accords parallel parted alsoParted depth further rfl
            (.called module other body (by simp)) (entered_called module body _)
            (entered_called other body _)).mono ?_
          rintro values results after last ⟨rfl, leaves⟩
          exact (both_pure ..).mpr ⟨rfl, leaves.same⟩
  split at replied
  · rename_i values after ran
    split at answered
    · rename_i outcomes last done
      obtain ⟨rfl, heaps⟩ := runs _ _ _ _ ran done
      rw [heaps]
    · cases answered
  · cases replied

end AffineKernel.Machine
