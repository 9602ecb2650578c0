import AffineKernel.Proofs.Modes.Ahead

/-!
# Building in both modes

Two contexts with matching bindings build the same node. If the first one has
bound it, so has the second one, and nothing happens; if only the second one has
bound it, the first one catches up; and if neither has, both build it, step by
step (`BuildM.build_both`). The contexts match again afterwards, and the values
are twins. Nothing is said if one of them fails.

The steps that act are taken by both contexts: those of a reduction, and the
operation of a store. The nest of a reduction is a region. Bindings of nodes
other than axes are afterwards what they were before it, so the contexts match as
they did, and it does not matter which axes have become unbound.
-/

set_option autoImplicit false

namespace AffineKernel

open Context

namespace Context

variable {permit : Permit} {pool : Pool} {first second middle between after last : Context}

/-- Both contexts have taken a step and match again. -/
structure InStep (permit : Permit) (pool : Pool) (first second after last : Context) : Prop where
  twinned : Twinned permit pool after last
  left : Grown first after
  right : Grown second last

namespace InStep

theorem refl (twinned : Twinned permit pool first second) : InStep permit pool first second first
    second :=
  ⟨twinned, .refl first, .refl second⟩

theorem trans (start : InStep permit pool first second middle between)
    (later : InStep permit pool middle between after last) : InStep permit pool first second after
    last :=
  ⟨later.twinned, start.left.trans later.left, start.right.trans later.right⟩

theorem twins (step : InStep permit pool first second after last) {value partner : Value}
    (twins : Module.Twins first.module second.module value partner) :
    Module.Twins after.module last.module value partner :=
  twins.grow step.left.module step.right.module

end InStep

end Context

/-- What each of the actions ensures may be used. -/
theorem Both.and_ensures {α β : Type} {act : BuildM α} {leap : BuildM β} {first second : Context}
    {post : α → β → Context → Context → Prop} {done : α → Context → Prop}
    {alsoDone : β → Context → Prop} {failed alsoFailed : Context → Prop}
    (both : Both act leap first second post) (left : BuildM.Ensures act first done failed)
    (right : BuildM.Ensures leap second alsoDone alsoFailed) :
    Both act leap first second fun a b after last =>
      post a b after last ∧ done a after ∧ alsoDone b last :=
  fun a b after last ended finished =>
    ⟨both a b after last ended finished, left.of_ok ended, right.of_ok finished⟩

namespace BuildM

variable {α β γ δ : Type} {permit : Permit} {pool : Pool} {next : NodeId} {first second : Context}
    {expr : Expr}
  {nodes : List Expr}

/-! ## Storage -/

/-- Creating an operation gives no storage and takes no identity. -/
theorem create_storage (draft : OpDraft) (context : Context) :
    Ensures (create draft) context
      (fun _ after => after.storage = context.storage ∧ after.nextId = context.nextId)
      fun _ => True :=
  ensures_create (fun _ _ _ => ⟨rfl, rfl⟩) fun _ => trivial

theorem createValue_storage (kind : OpKind) (operands : List Value) (type : ValueType)
    (attributes : List (String × Attribute)) (context : Context) :
    Ensures (createValue kind operands type attributes) context
      (fun _ after => after.storage = context.storage ∧ after.nextId = context.nextId)
      fun _ => True := by
  simp only [createValue, ensures_bind, ensures_pure]
  exact create_storage _ _

/-- The value of a new operation is nobody's buffer yet. -/
theorem createValue_unused {kind : OpKind} {operands : List Value} {type : ValueType}
    {attributes : List (String × Attribute)} {context after : Context} {value : Value}
    (tidy : context.Tidy permit) (store : kind ≠ .store)
    (made : createValue kind operands type attributes context = .ok value after) :
    after.Unused value := by
  obtain ⟨id, middle, created, same⟩ := EStateM.bind_eq_ok made
  cases same
  obtain ⟨point, rest, -, rfl, rfl⟩ := create_ok created
  exact tidy.unused (Module.unseen_result _ 0) store point

/-! ## Steps of both contexts -/

section Steps

variable {post : Unit → Unit → Context → Context → Prop}

@[simp]
theorem both_emit (event other : Event) :
    Both (emit event) (emit other) first second post ↔
      post () () (first.emit event) (second.emit other) := both_modify _ _

@[simp]
theorem both_bindNode (id other : NodeId) (binding partner : Binding) :
    Both (bindNode id binding) (bindNode other partner) first second post ↔
      post () () (first.bind id binding) (second.bind other partner) := both_modify _ _

@[simp]
theorem both_savePoint (point other : InsertionPoint) :
    Both (savePoint point) (savePoint other) first second post ↔
      post () () (first.savePoint point) (second.savePoint other) := both_modify _ _

end Steps

/-- A region is left in both contexts. -/
theorem both_inRegion {post : α → β → Context → Context → Prop} (act : BuildM α) (leap : BuildM β) :
    Both (inRegion act) (inRegion leap) first second post ↔
      Both act leap first.enterRegion second.enterRegion fun a b after last =>
        post a b (after.leaveRegion first.mark) (last.leaveRegion second.mark) := by
  constructor
  · intro both a b after last ended finished
    refine both a b _ _ ?_ ?_ <;> simp only [inRegion, ended, finished]
  · intro both a b after last ended finished
    simp only [inRegion] at ended finished
    split at ended
    · rename_i result inner ran
      cases ended
      split at finished
      · rename_i other further also
        cases finished
        exact both _ _ _ _ ran also
      · cases finished
    · cases ended

/-- The buffers of a tensor. -/
theorem storageOf_both (tensor : Tensor) :
    Both (storageOf tensor) (storageOf tensor) first second fun value partner after last =>
      after = first ∧ last = second ∧ first.storage.find? tensor.id = some value ∧
        second.storage.find? tensor.id = some partner := by
  intro value partner after last found also
  obtain ⟨stored, rfl⟩ := storageOf_ok found
  obtain ⟨known, rfl⟩ := storageOf_ok also
  exact ⟨rfl, rfl, stored, known⟩

section Creations

variable (twinned : Twinned permit pool first second) (sound : pool.Sound next)
include twinned sound

/-- What does not concern bindings keeps contexts matched. -/
theorem twinned_of_aligned {after last : Context} (aligned : Aligned permit after last)
    (left : Grown first after) (right : Grown second last)
    (same : after.bindings = first.bindings) (also : last.bindings = second.bindings) :
    InStep permit pool first second after last :=
  ⟨⟨aligned, twinned.matched.release sound (.of_same same) (.of_same also) left right⟩, left, right⟩

/-- Both contexts create an operation that acts, over twins. -/
theorem create_both {draft twin : OpDraft} (acts : draft.isPure = false)
    (allows : first.Allows permit draft) (alsoAllows : second.Allows permit twin)
    (kind : draft.kind = twin.kind) (attributes : draft.attributes = twin.attributes)
    (results : draft.results = twin.results) (regions : draft.regions = twin.regions)
    (operands : List.Forall₂ (Module.Twins first.module second.module) draft.operands
      twin.operands) :
    Both (create draft) (create twin) first second fun id partner after last =>
      InStep permit pool first second after last ∧
        after.module.blocks.size = first.module.blocks.size + draft.regions.length ∧
        Module.Siblings after.module last.module id partner ∧
        (draft.regions = [] →
          Module.Twins after.module last.module (.result id 0) (.result partner 0)) := by
  intro id partner after last made also
  obtain ⟨point, rest, stack, rfl, rfl⟩ := create_ok made
  obtain ⟨place, more, again, rfl, rfl⟩ := create_ok also
  have alsoActs : twin.isPure = false := by
    rw [← acts, OpDraft.isPure, OpDraft.isPure, kind, attributes]
  have aligned := twinned.aligned.create_both stack again acts kind attributes results regions
    operands allows alsoAllows
  have retains := Module.Retains.create first.module draft point
  have widens := Module.Retains.create second.module twin place
  have mates := twinned.aligned.parallel.mates_create point place acts kind attributes results
    regions operands
  refine ⟨twinned_of_aligned twinned sound (aligned.alike (.emit ..) (.emit ..))
    ⟨retains, fun found => found, rfl⟩ ⟨widens, fun found => found, rfl⟩ rfl rfl,
    Module.blocks_size_create, mates.siblings, fun flat =>
    ⟨.act (first.module.rank first.module.ops.size) draft.results,
      ⟨_, _, rfl, Module.op?_create_self, ?_, acts, rfl, ?_⟩,
      ⟨_, _, rfl, Module.op?_create_self, ?_, alsoActs, results.symm, ?_⟩⟩⟩
  · simp [Module.freshBlocks, flat]
  · exact retains.rank (Nat.le_refl _)
  · simp [Module.freshBlocks, ← regions, flat]
  · rw [twinned.aligned.parallel.count]
    exact widens.rank (Nat.le_refl _)

/-- Both contexts create an operation on scalars, over twins. -/
theorem createScalar_both {kind : OpKind} {dtype : DType} {attributes : List (String × Attribute)}
    {values partners : List Value}
    (computes : kind.computes = true ∧ kind ≠ .load ∧ kind ≠ .call)
    (operands : List.Forall₂ (Module.Twins first.module second.module) values partners) :
    Both (createValue kind values (.scalar dtype) attributes)
      (createValue kind partners (.scalar dtype) attributes) first second
      fun value partner after last => InStep permit pool first second after last ∧
        Module.Twins after.module last.module value partner := by
  intro value partner after last made also
  obtain ⟨trees, left, right⟩ := Module.exists_trees operands
  obtain ⟨enriches, shown⟩ := createScalar_enriches made computes left
  obtain ⟨more, alsoShown⟩ := createScalar_enriches also computes right
  exact ⟨⟨(twinned.enriches_left sound enriches).enriches_right sound more,
    enriches.grown, more.grown⟩, _, shown, alsoShown⟩

/-- Both contexts create an operation with a value that acts, over twins. -/
theorem createActing_both {kind : OpKind} {type : ValueType}
    {attributes : List (String × Attribute)} {values partners : List Value}
    (acts : kind.isPure attributes = false) (store : kind ≠ .store) (uncalled : kind ≠ .call)
    (operands : List.Forall₂ (Module.Twins first.module second.module) values partners) :
    Both (createValue kind values type attributes) (createValue kind partners type attributes)
      first second fun value partner after last => InStep permit pool first second after last ∧
        Module.Twins after.module last.module value partner := by
  simp only [createValue, both_bind, both_pure]
  exact Both.mono (create_both twinned sound acts (.of_acts acts store uncalled)
    (.of_acts acts store uncalled) rfl rfl rfl rfl operands)
    fun _ _ _ _ made => ⟨made.1, made.2.2.2 rfl⟩

theorem emitCast_both {source target : DType} {value partner : Value}
    (twins : Module.Twins first.module second.module value partner) :
    Both (emitCast value source target) (emitCast partner source target) first second
      fun value partner after last => InStep permit pool first second after last ∧
        Module.Twins after.module last.module value partner := by
  simp only [emitCast]
  split
  · exact (both_pure ..).mpr ⟨.refl twinned, twins⟩
  · exact createScalar_both twinned sound (castKind_computes _ _) (.cons twins .nil)

theorem emitYield_both : Both emitYield emitYield first second
    fun _ _ after last => InStep permit pool first second after last := by
  simp only [emitYield, both_bind, both_pure]
  exact Both.mono (create_both twinned sound rfl (.of_acts rfl (by simp) (by simp))
    (.of_acts rfl (by simp) (by simp)) rfl rfl rfl rfl .nil) fun _ _ _ _ made => made.1

/-- The operands of an access are twins. -/
theorem affineAccess_both (indices : List Expr) :
    Both (affineAccess indices) (affineAccess indices) first second fun made other after last =>
      InStep permit pool first second after last ∧ made.1 = other.1 ∧
        List.Forall₂ (Module.Twins after.module last.module) made.2 other.2 := by
  rintro ⟨map, values⟩ ⟨other, partners⟩ after last read also
  obtain ⟨refs, counters, extracted, rfl, counts, all⟩ := affineAccess_counts twinned.left read
  obtain ⟨_, others, again, rfl, alsoCounts, rest⟩ := affineAccess_counts twinned.right also
  cases extracted.symm.trans again
  cases twinned.counts_eq counts alsoCounts
  exact ⟨⟨(twinned.enriches_left sound (.log _ .refl)).enriches_right sound (.log _ .refl),
    .of_same rfl rfl rfl, .of_same rfl rfl rfl⟩, rfl, all.twins rest⟩

end Creations

/-! ## Operands -/

/-- A node is built alike in contexts that match. -/
def Matches (permit : Permit) (pool : Pool) (expr : Expr) : Prop :=
  ∀ {first second : Context}, Twinned permit pool first second →
    Both (build expr) (build expr) first second fun binding partner after last =>
      InStep permit pool first second after last ∧ Binding.Match after.module last.module binding
        partner

/-- A value that is needed. -/
theorem needValue_both {binding partner : Binding} (name : String)
    (twinned : Twinned permit pool first second)
    (matched : Binding.Match first.module second.module binding partner) :
    Both (needValue name binding) (needValue name partner) first second
      fun value partner after last => InStep permit pool first second after last ∧
        Module.Twins after.module last.module value partner := by
  cases matched with
  | value twins => exact (both_pure ..).mpr ⟨.refl twinned, twins⟩
  | op _ => exact Both.throw_left _ _

theorem buildValue_both (matches_ : Matches permit pool expr)
    (twinned : Twinned permit pool first second) :
    Both (buildValue expr) (buildValue expr) first second fun value partner after last =>
      InStep permit pool first second after last ∧ Module.Twins after.module last.module value
        partner := by
  simp only [buildValue, both_bind]
  refine (matches_ twinned).mono ?_
  rintro binding partner middle between ⟨step, matched⟩
  refine (needValue_both expr.name step.twinned matched).mono ?_
  rintro value other after last ⟨later, twins⟩
  exact ⟨step.trans later, twins⟩

theorem buildValues_both (each : ∀ operand ∈ nodes, Matches permit pool operand)
    (twinned : Twinned permit pool first second) :
    Both (nodes.mapM buildValue) (nodes.mapM buildValue) first second fun values partners after
      last =>
      InStep permit pool first second after last ∧
        List.Forall₂ (Module.Twins after.module last.module) values partners := by
  induction nodes generalizing first second with
  | nil =>
      simp only [List.mapM_nil, both_pure]
      exact ⟨.refl twinned, .nil⟩
  | cons operand rest ih =>
      simp only [List.mapM_cons, both_bind, both_pure]
      refine (buildValue_both (each operand List.mem_cons_self) twinned).mono ?_
      rintro value partner middle between ⟨step, twins⟩
      refine (ih (fun other listed => each other (List.mem_cons_of_mem _ listed)) step.twinned).mono
        ?_
      rintro values partners after last ⟨later, all⟩
      exact ⟨step.trans later, .cons (later.twins twins) all⟩

/-- Both contexts bind a node that neither has bound. -/
theorem once_both {name : String} {act leap : BuildM Binding} (sound : pool.Sound next)
    (member : pool.expr expr) (free : first.binding? expr.id = none)
    (also : second.binding? expr.id = none)
    (both : Both act leap (first.emit (.materialize expr.id name))
      (second.emit (.materialize expr.id name)) fun binding partner after last =>
        InStep permit pool first second after last ∧
          Binding.Match after.module last.module binding partner ∧ last.binding? expr.id = none) :
    Both (once expr.id name act) (once expr.id name leap) first second fun binding partner after
      last =>
      InStep permit pool first second after last ∧ Binding.Match after.module last.module binding
        partner := by
  simp only [once, both_bind, both_get, free, also, both_emit, both_bindNode, both_pure]
  refine both.mono ?_
  rintro binding partner after last ⟨step, matched, unbound⟩
  exact ⟨⟨⟨step.twinned.aligned.alike (.bind ..) (.bind ..),
    step.twinned.matched.bind_both sound member (.inr unbound) matched⟩,
    step.left.trans (.of_same rfl rfl rfl), step.right.trans (.of_same rfl rfl rfl)⟩, matched⟩

/-- A step that logs the same in both contexts. -/
theorem emit_inStep (sound : pool.Sound next) (twinned : Twinned permit pool first second)
    (event other : Event) :
    InStep permit pool first second (first.emit event) (second.emit other) :=
  ⟨(twinned.enriches_left sound (.log _ .refl)).enriches_right sound (.log _ .refl),
    .of_same rfl rfl rfl, .of_same rfl rfl rfl⟩

/-! ## Plain nodes and stores -/

theorem plain_both (sound : pool.Sound next) (member : pool.expr expr) (plain : expr.isPlain = true)
    (records : permit.Records expr) (each : ∀ operand ∈ expr.valueOperands, Matches permit pool
      operand) (twinned : Twinned permit pool first second)
    (free : first.binding? expr.id = none) (also : second.binding? expr.id = none) :
    Both (build expr) (build expr) first second fun binding partner after last =>
      InStep permit pool first second after last ∧ Binding.Match after.module last.module binding
        partner := by
  intro binding partner after last built alsoBuilt
  rcases build_plain_ok plain built with ⟨bound, -⟩ | ⟨-, made⟩
  · rw [free] at bound
    cases bound
  rcases build_plain_ok plain alsoBuilt with ⟨bound, -⟩ | ⟨-, alsoMade⟩
  · rw [also] at bound
    cases bound
  obtain ⟨values, middle, value, inner, operands, emitted, rfl, rfl⟩ := made
  obtain ⟨partners, between, other, outer, alsoOperands, alsoEmitted, rfl, rfl⟩ := alsoMade
  have logged := emit_inStep sound twinned (.materialize expr.id expr.name)
    (.materialize expr.id expr.name)
  obtain ⟨step, twins⟩ := buildValues_both each logged.twinned _ _ _ _ operands alsoOperands
  obtain ⟨trees, left, right⟩ := Module.exists_trees twins
  obtain ⟨tree, forms, shown, enriches⟩ := emitNode_forms step.twinned.left records left emitted
  obtain ⟨again, alsoForms, alsoShown, more⟩ :=
    emitNode_forms step.twinned.right records right alsoEmitted
  obtain rfl := step.twinned.forms_eq forms alsoForms
  have done := (step.twinned.enriches_left sound enriches).enriches_right sound more
  have unbound : outer.binding? expr.id = none := by
    rw [binding?, more.same.1]
    exact operands_free sound member also alsoOperands
  have matched : Binding.Match inner.module outer.module (.value value) (.value other) :=
    .value ⟨tree, shown, alsoShown⟩
  have grown := (logged.left.trans step.left).trans enriches.grown
  have widened := (logged.right.trans step.right).trans more.grown
  exact ⟨⟨⟨done.aligned.alike (.bind ..) (.bind ..),
    done.matched.bind_both sound member (.inr unbound) matched⟩,
    grown.trans (.of_same rfl rfl rfl), widened.trans (.of_same rfl rfl rfl)⟩, matched⟩

theorem emitStore_both {value partner : Value} {tensor : Tensor} {indices : List Expr}
    (sound : pool.Sound next) (may : permit.stores tensor)
    (twinned : Twinned permit pool first second)
    (twins : Module.Twins first.module second.module value partner) :
    Both (emitStore value tensor indices) (emitStore partner tensor indices) first second
      fun id partner after last => InStep permit pool first second after last ∧
        Module.Siblings after.module last.module id partner := by
  simp only [emitStore, both_bind]
  refine (storageOf_both tensor).mono ?_
  rintro memref buffer _ _ ⟨rfl, rfl, stored, known⟩
  refine (affineAccess_both twinned sound indices).mono ?_
  rintro ⟨map, operands⟩ ⟨_, others⟩ middle between ⟨step, rfl, counters⟩
  have allows : middle.Allows permit ⟨.store, value :: memref :: operands, [],
      accessAttributes map tensor.name, []⟩ := .of_store rfl fun buffer same => by
    cases same
    exact .inl ⟨tensor, may, step.left.storage stored⟩
  have alsoAllows : between.Allows permit ⟨.store, partner :: buffer :: others, [],
      accessAttributes map tensor.name, []⟩ := .of_store rfl fun buffer same => by
    cases same
    exact .inl ⟨tensor, may, step.right.storage known⟩
  exact Both.mono (create_both step.twinned sound rfl allows alsoAllows rfl rfl rfl rfl
    (.cons (step.twins twins) (.cons (step.twins (twinned.aligned.twins stored known)) counters)))
    fun _ _ _ _ made => ⟨step.trans made.1, made.2.2.1⟩

theorem store_both {id : NodeId} {tensor : Tensor} {value : Expr} {indices : List Expr}
    (sound : pool.Sound next) (member : pool.expr (.store id tensor value indices))
    (may : permit.stores tensor) (each : Matches permit pool value)
    (twinned : Twinned permit pool first second)
    (free : first.binding? id = none) (also : second.binding? id = none) :
    Both (build (.store id tensor value indices)) (build (.store id tensor value indices)) first
      second
      fun binding partner after last => InStep permit pool first second after last ∧
        Binding.Match after.module last.module binding partner := by
  rw [build]
  refine once_both sound member free also ?_
  have logged := emit_inStep sound twinned (.materialize id "store") (.materialize id "store")
  have both : Both (do
        let stored ← needValue value.name (← build value)
        return Binding.op (← emitStore stored tensor indices))
      (do
        let stored ← needValue value.name (← build value)
        return Binding.op (← emitStore stored tensor indices))
      (first.emit (.materialize id "store")) (second.emit (.materialize id "store"))
      fun binding partner after last => InStep permit pool first second after last ∧
        Binding.Match after.module last.module binding partner := by
    simp only [both_bind, both_pure]
    refine (each logged.twinned).mono ?_
    rintro built other middle between ⟨step, matched⟩
    refine (needValue_both value.name step.twinned matched).mono ?_
    rintro stored twin late end_ ⟨needed, twins⟩
    refine (emitStore_both sound may needed.twinned twins).mono ?_
    rintro op partner after last ⟨later, siblings⟩
    exact ⟨((logged.trans step).trans needed).trans later, .op siblings⟩
  intro binding partner after last ended finished
  obtain ⟨step, matched⟩ := both _ _ _ _ ended finished
  refine ⟨step, matched, ?_⟩
  obtain ⟨built, middle, made, finished⟩ := EStateM.bind_eq_ok finished
  have unbound : middle.binding? id = none := build_free sound member
    (sound.operands member value (by simp [Expr.operands]))
    (Expr.sizeOf_operand (by simp [Expr.operands])) made also
  obtain ⟨stored, late, needed, finished⟩ := EStateM.bind_eq_ok finished
  obtain ⟨op, end_, emitted, same⟩ := EStateM.bind_eq_ok finished
  cases same
  have first_ := (quiet_creations.needValue value.name built middle).of_ok needed
  have second_ := (quiet_creations.emitStore stored tensor indices late).of_ok emitted
  exact (second_.binding? id).trans ((first_.binding? id).trans unbound)

/-! ## Loops of reductions -/

/-- Bounds of loops with the same map, over twins. -/
structure LoopBound.Mates (module other : Module) (bound twin : LoopBound) : Prop where
  map : bound.map = twin.map
  operands : List.Forall₂ (Module.Twins module other) bound.operand.toList twin.operand.toList

theorem LoopBound.Mates.inStep {after last : Context} {bound twin : LoopBound}
    (mates : LoopBound.Mates first.module second.module bound twin)
    (step : InStep permit pool first second after last) :
    LoopBound.Mates after.module last.module bound twin :=
  ⟨mates.map, mates.operands.imp fun _ _ => step.twins⟩

theorem buildBound_both (sound : pool.Sound next) {bound : Bound}
    (each : ∀ expr ∈ bound.exprs, Matches permit pool expr)
    (twinned : Twinned permit pool first second) :
    Both (buildBound bound) (buildBound bound) first second fun low high after last =>
      InStep permit pool first second after last ∧ LoopBound.Mates after.module last.module low
        high := by
  cases bound with
  | const value =>
      rw [buildBound]
      exact (both_pure ..).mpr ⟨.refl twinned, rfl, .nil⟩
  | expr value =>
      rw [buildBound]
      cases typed : value.dtype? with
      | none =>
          rw [valueType, typed]
          exact Both.throw_bind_left _ _ _
      | some dtype =>
          rw [valueType, typed]
          simp only [pure_bind]
          split
          · exact Both.throw_bind_left _ _ _
          simp only [both_bind, both_pure]
          refine (each value (by simp [Bound.exprs]) twinned).mono ?_
          rintro binding partner middle between ⟨step, matched⟩
          refine (needValue_both value.name step.twinned matched).mono ?_
          rintro built other late end_ ⟨needed, twins⟩
          refine (emitCast_both needed.twinned sound twins).mono ?_
          rintro cast_ twin after last ⟨later, cast⟩
          exact ⟨(step.trans needed).trans later, rfl, .cons cast .nil⟩

/-- Both contexts create an operation with one region, which is the same block. -/
theorem createRegion_both (sound : pool.Sound next) (twinned : Twinned permit pool first second)
    {kind : OpKind} {values partners : List Value} {attributes : List (String × Attribute)}
    {args : List ValueType} (acts : kind.isPure attributes = false) (store : kind ≠ .store)
    (uncalled : kind ≠ .call)
    (operands : List.Forall₂ (Module.Twins first.module second.module) values partners) :
    Both (createRegion kind values attributes args) (createRegion kind partners attributes args)
      first second fun made other after last => InStep permit pool first second after last ∧
        made.2 = other.2 ∧ made.2.index < after.module.blocks.size ∧
        Module.Siblings after.module last.module made.1 other.1 := by
  simp only [createRegion, both_bind, both_get, both_pure]
  refine Both.mono (create_both twinned sound acts (.of_acts acts store uncalled)
    (.of_acts acts store uncalled) rfl rfl rfl rfl operands) ?_
  rintro id partner after last ⟨step, blocks, siblings, -⟩
  refine ⟨step, by rw [twinned.aligned.parallel.size], ?_, siblings⟩
  rw [blocks]
  exact Nat.lt_succ_self _

/-- The arguments of a block are twins. -/
theorem twins_arg (twinned : Twinned permit pool first second) {block : BlockId}
    (small : block.index < first.module.blocks.size) (position : Nat) :
    Module.Twins first.module second.module (.arg block position) (.arg block position) :=
  ⟨.arg block position, ⟨rfl, small⟩, rfl, twinned.aligned.parallel.size ▸ small⟩

/-- Both contexts create a loop, whose body is the same block. -/
theorem emitLoop_both (sound : pool.Sound next) (twinned : Twinned permit pool first second)
    {low high lower upper : LoopBound} {spec : LoopSpec}
    (lowMates : LoopBound.Mates first.module second.module low lower)
    (highMates : LoopBound.Mates first.module second.module high upper) :
    Both (emitLoop low high spec) (emitLoop lower upper spec) first second
      fun header twin after last => InStep permit pool first second after last ∧ header.body =
        twin.body ∧
        header.body.index < after.module.blocks.size ∧
        Module.Siblings after.module last.module header.op twin.op ∧
        Module.Twins after.module last.module header.counter twin.counter := by
  obtain ⟨lowMap, lowOperands⟩ := lowMates
  obtain ⟨highMap, highOperands⟩ := highMates
  simp only [emitLoop, both_bind, both_pure, both_emit, lowMap, highMap]
  refine (createRegion_both sound twinned rfl (by simp) (by simp)
    (List.rel_append lowOperands highOperands)).mono ?_
  rintro ⟨id, body⟩ ⟨partner, _⟩ middle between ⟨step, rfl, small, siblings⟩
  have logged := step.trans (emit_inStep sound step.twinned
    (.openLoop id (spec.name.getD "")) (.openLoop partner (spec.name.getD "")))
  exact ⟨logged, rfl, small, siblings, twins_arg logged.twinned small 0⟩

/-- Both contexts enter the body of a loop. -/
theorem enter_inStep (twinned : Twinned permit pool first second) (sound : pool.Sound next)
    (member : pool.expr expr) (axis : expr.isAxis = true) {block : BlockId}
    (small : block.index < first.module.blocks.size) {value partner : Value}
    (twins : Module.Twins first.module second.module value partner) :
    InStep permit pool first second ((first.bind expr.id (.value value)).savePoint (.atEnd block))
      ((second.bind expr.id (.value partner)).savePoint (.atEnd block)) := by
  have matched := twinned.matched.bind_both sound member (.inl axis) (.value twins)
  exact ⟨⟨twinned.aligned.push (.atEnd small) ⟨rfl, rfl, rfl, rfl⟩ ⟨rfl, rfl, rfl, rfl⟩,
    matched.release sound (.of_same rfl) (.of_same rfl) (.of_same rfl rfl rfl)
      (.of_same rfl rfl rfl)⟩, .of_same rfl rfl rfl, .of_same rfl rfl rfl⟩

/-- Both contexts open the loops of axes. -/
theorem openAxes_both (sound : pool.Sound next) : ∀ (axes : List Expr) {first second : Context},
    (∀ axis ∈ axes, pool.expr axis) →
    (∀ axis ∈ axes, ∀ bound ∈ axis.bounds, Matches permit pool bound) → Twinned permit pool first
    second →
    Both (openAxes axes) (openAxes axes) first second fun _ _ after last =>
      InStep permit pool first second after last
  | [], _, _, _, _, twinned => (both_pure ..).mpr (.refl twinned)
  | .axis id name lower upper :: rest, first, second, members, each, twinned => by
      have member := members (.axis id name lower upper) List.mem_cons_self
      have bounds := each (.axis id name lower upper) List.mem_cons_self
      simp only [Expr.bounds, List.forall_mem_append] at bounds
      simp only [openAxes, both_bind, both_bindNode, both_savePoint]
      refine (buildBound_both sound bounds.1 twinned).mono ?_
      rintro low alsoLow middle between ⟨step, lowMates⟩
      refine (buildBound_both sound bounds.2 step.twinned).mono ?_
      rintro high alsoHigh late end_ ⟨further, highMates⟩
      refine (emitLoop_both sound further.twinned (lowMates.inStep further) highMates).mono ?_
      rintro header twin after last ⟨looped, body, small, -, counters⟩
      have entered := enter_inStep looped.twinned sound member rfl small counters
      rw [← body]
      refine (openAxes_both sound rest (fun axis listed => members axis
        (List.mem_cons_of_mem _ listed))
        (fun axis listed => each axis (List.mem_cons_of_mem _ listed)) entered.twinned).mono ?_
      exact fun _ _ _ _ later => (((step.trans further).trans looped).trans entered).trans later
  | .constant .. :: _, _, _, _, _, _ | .loopVar .. :: _, _, _, _, _, _
  | .unary .. :: _, _, _, _, _, _ | .binary .. :: _, _, _, _, _, _
  | .compare .. :: _, _, _, _, _, _ | .cast .. :: _, _, _, _, _, _
  | .load .. :: _, _, _, _, _, _ | .store .. :: _, _, _, _, _, _
  | .select .. :: _, _, _, _, _, _ | .call .. :: _, _, _, _, _, _
  | .getBit .. :: _, _, _, _, _, _ | .reduce .. :: _, _, _, _, _, _ => Both.throw_left _ _

theorem restorePoint_ok {context after : Context} {point : InsertionPoint}
    (made : restorePoint context = .ok point after) :
    Coincides { context with stack := context.stack.drop 1 } after ∧
      after.bindings = context.bindings ∧ after.mode = context.mode := by
  rw [restorePoint, EStateM.get_bind_apply] at made
  cases stack : context.stack with
  | nil =>
      rw [stack] at made
      cases made
  | cons first rest =>
      rw [stack] at made
      cases made
      exact ⟨⟨rfl, rfl, rfl, rfl⟩, rfl, rfl⟩

/-- Both contexts return to the insertion points that they had before. -/
theorem restorePoint_both (twinned : Twinned permit pool first second) (sound : pool.Sound next) :
    Both restorePoint restorePoint first second fun _ _ after last =>
      InStep permit pool first second after last := by
  intro _ _ after last made also
  obtain ⟨left, bindings, mode⟩ := restorePoint_ok made
  obtain ⟨right, alsoBindings, alsoMode⟩ := restorePoint_ok also
  exact twinned_of_aligned twinned sound (twinned.aligned.drop 1 left right)
    (.of_same left.module left.storage mode) (.of_same right.module right.storage alsoMode) bindings
    alsoBindings

/-- Both contexts end the bodies of loops. -/
theorem closeLoops_both (sound : pool.Sound next) : ∀ (count : Nat) {first second : Context},
    Twinned permit pool first second →
    Both (closeLoops count) (closeLoops count) first second fun _ _ after last =>
      InStep permit pool first second after last
  | 0, _, _, twinned => (both_pure ..).mpr (.refl twinned)
  | count + 1, first, second, twinned => by
      simp only [closeLoops, both_bind]
      refine (emitYield_both twinned sound).mono ?_
      rintro _ _ middle between step
      refine (restorePoint_both step.twinned sound).mono ?_
      rintro _ _ late end_ restored
      exact (closeLoops_both sound count restored.twinned).mono
        fun _ _ _ _ later => (step.trans restored).trans later

/-! ## Reductions -/

/-- Accumulators of one reduction in both contexts. -/
structure Accumulator.Mates (module other : Module) (acc twin : Accumulator) : Prop where
  buffer : Module.Twins module other acc.buffer twin.buffer
  zero : Module.Twins module other acc.zero twin.zero
  name : acc.name = twin.name
  dtype : acc.dtype = twin.dtype

/-- Accumulators of one reduction that both contexts have stored to. -/
structure Accumulator.Begun (module other : Module) (acc twin : Accumulator) : Prop where
  mates : Accumulator.Mates module other acc twin
  left : module.Writes acc.buffer
  right : other.Writes twin.buffer

/-- What is stored to an accumulator changes its buffer. -/
theorem store_writes (acc : Accumulator) (value : Value) (context : Context) :
    Ensures (acc.store value) context (fun _ after => after.module.Writes acc.buffer)
      fun _ => True := by
  simp only [Accumulator.store, ensures_bind, ensures_pure]
  exact ensures_create (fun _ _ _ => ⟨_, _, Module.op?_create_self, rfl, rfl⟩) fun _ => trivial

namespace Accumulator.Mates

variable {acc twin : Accumulator} {after last : Context}
  (mates : Accumulator.Mates first.module second.module acc twin)
include mates

theorem inStep (step : InStep permit pool first second after last) :
    Accumulator.Mates after.module last.module acc twin :=
  ⟨step.twins mates.buffer, step.twins mates.zero, mates.name, mates.dtype⟩

theorem attributes_eq : acc.attributes = twin.attributes := by
  rw [Accumulator.attributes, Accumulator.attributes, mates.name]

/-- What was accumulated is read by an operation that acts. -/
theorem load_both (sound : pool.Sound next) (twinned : Twinned permit pool first second) :
    Both acc.load twin.load first second fun value partner after last =>
      InStep permit pool first second after last ∧ Module.Twins after.module last.module value
        partner := by
  rw [Accumulator.load, Accumulator.load, mates.attributes_eq, mates.dtype]
  exact createActing_both twinned sound rfl (by simp) (by simp)
    (.cons mates.buffer (.cons mates.zero .nil))

/-- What is stored changes the buffers, which are those of the accumulators from then on. -/
theorem store_both (sound : pool.Sound next) (twinned : Twinned permit pool first second)
    (left : first.Writable permit acc.buffer) (right : second.Writable permit twin.buffer)
    {value partner : Value} (twins : Module.Twins first.module second.module value partner) :
    Both (acc.store value) (twin.store partner) first second fun _ _ after last =>
      InStep permit pool first second after last ∧
        Accumulator.Begun after.module last.module acc twin := by
  have both : Both (acc.store value) (twin.store partner) first second fun _ _ after last =>
      InStep permit pool first second after last := by
    simp only [Accumulator.store, both_bind, both_pure]
    exact Both.mono (create_both twinned sound rfl
      (.of_store rfl fun buffer same => Option.some.inj same ▸ left)
      (.of_store rfl fun buffer same => Option.some.inj same ▸ right) rfl mates.attributes_eq rfl
        rfl
      (.cons twins (.cons mates.buffer (.cons mates.zero .nil)))) fun _ _ _ _ made => made.1
  refine (both.and_ensures (store_writes acc value first) (store_writes twin partner second)).mono
    ?_
  rintro _ _ _ _ ⟨step, here, there⟩
  exact ⟨step, mates.inStep step, here, there⟩

end Accumulator.Mates

namespace Accumulator.Begun

variable {acc twin : Accumulator} {after last : Context}
  (begun : Accumulator.Begun first.module second.module acc twin)
include begun

theorem inStep (step : InStep permit pool first second after last) :
    Accumulator.Begun after.module last.module acc twin :=
  ⟨begun.mates.inStep step, begun.left.grow step.left.module, begun.right.grow step.right.module⟩

/-- The step of a reduction. -/
theorem step_both (sound : pool.Sound next) (twinned : Twinned permit pool first second)
    (kind : ReduceKind) (dtype : DType) {body : Expr} (each : Matches permit pool body) :
    Both (acc.step kind dtype body) (twin.step kind dtype body) first second fun _ _ after last =>
      InStep permit pool first second after last := by
  simp only [Accumulator.step]
  cases typed : body.dtype? with
  | none =>
      rw [valueType, typed]
      exact Both.throw_bind_left _ _ _
  | some actual =>
      rw [valueType, typed]
      simp only [pure_bind]
      split
      · exact Both.throw_bind_left _ _ _
      simp only [both_bind]
      refine (each twinned).mono ?_
      rintro binding partner middle between ⟨step, matched⟩
      refine (needValue_both body.name step.twinned matched).mono ?_
      rintro data other late end_ ⟨needed, twins⟩
      have start := step.trans needed
      refine ((begun.mates.inStep start).load_both sound needed.twinned).mono ?_
      rintro current alsoCurrent _ _ ⟨loaded, currents⟩
      refine (createScalar_both loaded.twinned sound (ReduceKind.combine_computes kind dtype)
        (.cons (loaded.twins twins) (.cons currents .nil))).mono ?_
      rintro combined alsoCombined _ _ ⟨computed, results⟩
      have all := (start.trans loaded).trans computed
      have now := begun.inStep all
      exact (now.mates.store_both sound computed.twinned
        (computed.twinned.aligned.left.writes now.left)
        (computed.twinned.aligned.right.writes now.right) results).mono
        fun _ _ _ _ stored => all.trans stored.1

end Accumulator.Begun

theorem openAccumulator_both (sound : pool.Sound next) (twinned : Twinned permit pool first second)
    (kind : ReduceKind) (dtype : DType) :
    Both (openAccumulator kind dtype) (openAccumulator kind dtype) first second
      fun acc twin after last => InStep permit pool first second after last ∧
        Accumulator.Begun after.module last.module acc twin := by
  have allocates : Both (createValue .alloc [] (.memref [1] dtype)
    [("name", .str (kind.name ++ "_rv"))])
      (createValue .alloc [] (.memref [1] dtype) [("name", .str (kind.name ++ "_rv"))]) first second
      fun buffer other after last => InStep permit pool first second after last ∧
        Module.Twins after.module last.module buffer other ∧ after.Unused buffer ∧
        last.Unused other := by
    intro buffer other after last made also
    obtain ⟨step, twins⟩ :=
      createActing_both twinned sound rfl (by simp) (by simp) .nil _ _ _ _ made also
    exact ⟨step, twins, createValue_unused twinned.aligned.left (by simp) made,
      createValue_unused twinned.aligned.right (by simp) also⟩
  have constant : ∀ {first second : Context} (dtype : DType) (held : Attribute),
      Twinned permit pool first second →
      Both (createValue .constant [] (.scalar dtype) [("value", held)])
        (createValue .constant [] (.scalar dtype) [("value", held)]) first second
        fun value partner after last => (InStep permit pool first second after last ∧
          Module.Twins after.module last.module value partner) ∧
          after.storage = first.storage ∧ last.storage = second.storage := by
    intro first second dtype held twinned
    refine ((createScalar_both twinned sound ⟨rfl, by simp, by simp⟩ .nil).and_ensures
      (createValue_storage _ _ _ _ _) (createValue_storage _ _ _ _ _)).mono ?_
    exact fun _ _ _ _ ⟨made, left, right⟩ => ⟨made, left.1, right.1⟩
  simp only [openAccumulator, both_bind, both_pure]
  refine allocates.mono ?_
  rintro buffer other _ _ ⟨allocated, buffers, unused, alsoUnused⟩
  refine (constant .index _ allocated.twinned).mono ?_
  rintro zero alsoZero _ _ ⟨⟨made, zeros⟩, kept, alsoKept⟩
  refine (constant dtype _ made.twinned).mono ?_
  rintro start alsoStart middle between ⟨⟨started, starts⟩, still, alsoStill⟩
  have mates : Accumulator.Mates middle.module between.module
      ⟨buffer, zero, kind.name ++ "_rv", dtype⟩ ⟨other, alsoZero, kind.name ++ "_rv", dtype⟩ :=
    ⟨started.twins (made.twins buffers), started.twins zeros, rfl, rfl⟩
  -- The new buffers are the storage of no tensor, so the first store is allowed.
  obtain ⟨tree, here, there⟩ := mates.buffer
  have left : middle.Writable permit buffer := .inr ⟨⟨tree, here⟩, by
    rw [still, kept]
    exact unused.1⟩
  have right : between.Writable permit other := .inr ⟨⟨tree, there⟩, by
    rw [alsoStill, alsoKept]
    exact alsoUnused.1⟩
  refine (mates.store_both sound started.twinned left right starts).mono ?_
  exact fun _ _ _ _ stored => ⟨((allocated.trans made).trans started).trans stored.1, stored.2⟩

/-- Both contexts run the nest of a reduction. -/
theorem nest_both (sound : pool.Sound next) {id : NodeId} {dtype : DType} {kind : ReduceKind}
    {body : Expr} {axes : List Expr} (member : pool.expr (.reduce id dtype kind body axes))
    (each : Matches permit pool body) (bounds : ∀ axis ∈ axes, ∀ bound ∈ axis.bounds, Matches permit
      pool bound)
    {acc twin : Accumulator} (twinned : Twinned permit pool first second)
    (begun : Accumulator.Begun first.module second.module acc twin) :
    Both (inRegion (reduceNest acc kind dtype body axes))
      (inRegion (reduceNest twin kind dtype body axes))
      first second fun _ _ after last => InStep permit pool first second after last := by
  have members : ∀ axis ∈ axes, pool.expr axis := fun axis listed =>
    sound.operands member axis (List.mem_cons_of_mem _ listed)
  have outside : Aligned permit first.enterRegion second.enterRegion :=
    twinned.aligned.alike ⟨rfl, rfl, rfl, rfl⟩ ⟨rfl, rfl, rfl, rfl⟩
  have entered : Twinned permit pool first.enterRegion second.enterRegion :=
    (twinned_of_aligned twinned sound outside (.of_same rfl rfl rfl) (.of_same rfl rfl rfl) rfl
      rfl).twinned
  have inner : Both (reduceNest acc kind dtype body axes) (reduceNest twin kind dtype body axes)
      first.enterRegion second.enterRegion fun _ _ after last =>
        InStep permit pool first.enterRegion second.enterRegion after last := by
    simp only [reduceNest_eq, both_bind]
    refine (openAxes_both sound axes members bounds entered).mono fun _ _ _ _ opened => ?_
    have begun : Accumulator.Begun first.enterRegion.module second.enterRegion.module acc twin :=
      begun
    refine ((begun.inStep opened).step_both sound opened.twinned kind dtype each).mono ?_
    intro _ _ _ _ stepped
    exact (closeLoops_both sound axes.length stepped.twinned).mono
      fun _ _ _ _ closed => (opened.trans stepped).trans closed
  have left := nest_restores acc kind dtype body axes first
  have right := nest_restores twin kind dtype body axes second
  have swept := Pool.swept_axis sound _ member
  have whole : Both (inRegion (reduceNest acc kind dtype body axes))
      (inRegion (reduceNest twin kind dtype body axes)) first second fun _ _ after last =>
        ∃ nest other, InStep permit pool first.enterRegion second.enterRegion nest other ∧
          after = nest.leaveRegion first.mark ∧ last = other.leaveRegion second.mark :=
    (both_inRegion _ _).mpr (inner.mono fun _ _ nest other done => ⟨nest, other, done, rfl, rfl⟩)
  refine (whole.and_ensures left right).mono ?_
  rintro _ _ _ _ ⟨⟨nest, other, done, rfl, rfl⟩, restored, alsoRestored⟩
  have grown : Grown first (nest.leaveRegion first.mark) :=
    ⟨done.left.module, done.left.storage, done.left.mode⟩
  have widened : Grown second (other.leaveRegion second.mark) :=
    ⟨done.right.module, done.right.storage, done.right.mode⟩
  have aligned : Aligned permit (nest.leaveRegion first.mark) (other.leaveRegion second.mark) :=
    done.twinned.aligned.leave twinned.aligned.depth
  have settled : ∀ {before after : Context}, (∀ id, after.binding? id = before.binding? id ∨
      id ∈ sweptAxes axes ++ body.swept ∧ after.binding? id = none) → Released pool before after :=
    fun restored id => (restored id).imp_right (And.imp_left (swept id))
  exact ⟨⟨aligned, twinned.matched.release sound (settled restored) (settled alsoRestored) grown
    widened⟩,
    grown, widened⟩

theorem reduce_both {id : NodeId} {dtype : DType} {kind : ReduceKind} {body : Expr}
    {axes : List Expr} (sound : pool.Sound next)
    (member : pool.expr (.reduce id dtype kind body axes)) (each : Matches permit pool body)
    (bounds : ∀ axis ∈ axes, ∀ bound ∈ axis.bounds, Matches permit pool bound)
    (twinned : Twinned permit pool first second) (free : first.binding? id = none)
    (also : second.binding? id = none) :
    Both (build (.reduce id dtype kind body axes)) (build (.reduce id dtype kind body axes))
      first second fun binding partner after last => InStep permit pool first second after last ∧
        Binding.Match after.module last.module binding partner := by
  rw [build_reduce]
  refine once_both sound member free also ?_
  have logged := emit_inStep sound twinned (.materialize id "reduce") (.materialize id "reduce")
  have started := logged.trans (emit_inStep sound logged.twinned
    (.synthesizeReduction kind dtype axes.length) (.synthesizeReduction kind dtype axes.length))
  simp only [both_map, both_bind, both_emit]
  have opens := quiet_creations.openAccumulator kind dtype
  refine ((openAccumulator_both sound started.twinned kind dtype).and_ensures (opens _)
    (opens _)).mono ?_
  rintro acc twin middle between ⟨⟨opened, begun⟩, -, quiet⟩
  refine ((nest_both sound member each bounds opened.twinned begun).and_ensures
    (nest_restores acc kind dtype body axes middle)
    (nest_restores twin kind dtype body axes between)).mono ?_
  rintro _ _ late end_ ⟨nested, -, restored⟩
  have loads := quiet_creations.accumulatorLoad
  refine (((begun.mates.inStep nested).load_both sound nested.twinned).and_ensures (loads acc _)
    (loads twin _)).mono ?_
  rintro value partner after last ⟨⟨loaded, twins⟩, -, still⟩
  refine ⟨((started.trans opened).trans nested).trans loaded, .value twins, ?_⟩
  rw [Expr.id, still.binding?]
  rcases restored id with same | ⟨-, gone⟩
  · rw [same, quiet.binding?]
    exact also
  · exact gone

/-! ## Nodes -/

/-- A loop variable that is not bound cannot be built. -/
theorem build_loop_ne_ok {context after : Context} {binding : Binding}
    (loop : expr.loopName?.isSome)
    (free : context.binding? expr.id = none) : build expr context ≠ .ok binding after := by
  intro built
  cases expr with
  | loopVar id name | axis id name =>
      rw [build] at built
      rcases onceValue_ok built with ⟨bound, -⟩ | ⟨-, _, _, failed, -⟩
      · cases free.symm.trans bound
      · cases failed
  | _ => cases loop

/-- **Both contexts build a node.** In contexts with matching bindings a node is built alike,
whatever each of them has bound before: they match again, and what the node is bound to is twins. -/
theorem build_both (sound : pool.Sound next) (obeys : pool.Obeys permit) (expr : Expr)
    (member : pool.expr expr) : Matches permit pool expr := by
  intro first second twinned
  have below : ∀ operand ∈ expr.operands, Matches permit pool operand := fun operand listed =>
    build_both sound obeys operand (sound.operands member operand listed)
  have bounds : ∀ axis ∈ expr.operands, ∀ bound ∈ axis.bounds, Matches permit pool bound :=
    fun axis listed bound inside => build_both sound obeys bound
      ((sound.accepts (sound.operands member axis listed)).bounds bound inside)
  have isLoop : expr.isAxis = true → expr.loopName?.isSome := by
    intro axis
    cases expr <;> first | rfl | cases axis
  intro binding partner after last built also
  cases found : first.binding? expr.id with
  | some old =>
      rw [build_of_bound found] at built
      cases built
      cases known : second.binding? expr.id with
      | some other =>
          rw [build_of_bound known] at also
          cases also
          exact ⟨.refl twinned, twinned.matched.twins found known⟩
      | none =>
          -- Only an axis may be bound in the first context alone, and then it is not built.
          cases axis : expr.isAxis with
          | true => exact absurd also (build_loop_ne_ok (isLoop axis) known)
          | false =>
              obtain ⟨other, there⟩ := twinned.matched.bound member axis found
              cases known.symm.trans there
  | none =>
      cases known : second.binding? expr.id with
      | some other =>
          cases axis : expr.isAxis with
          | true => exact absurd built (build_loop_ne_ok (isLoop axis) found)
          | false =>
              rw [build_of_bound known] at also
              cases also
              obtain ⟨done, grown, matched⟩ := build_catches sound obeys expr member axis twinned
                known built
              exact ⟨⟨done, grown, .refl second⟩, matched⟩
      | none =>
          cases expr with
          | constant | unary | binary | compare | cast | load | select | getBit =>
              exact plain_both sound member rfl (obeys.records member)
                (fun operand listed => below operand
                (Expr.valueOperands_subset _ _ listed)) twinned found known _ _ _ _ built also
          | loopVar | axis => exact absurd built (build_loop_ne_ok rfl found)
          | call => cases obeys.uncalled member
          | store id tensor value indices =>
              exact store_both sound member (obeys.records member)
                (below value (by simp [Expr.operands])) twinned found known
                _ _ _ _ built also
          | reduce id dtype kind body axes =>
              exact reduce_both sound member (below body (by simp [Expr.operands]))
                (fun axis listed => bounds axis (List.mem_cons_of_mem _ listed)) twinned found known
                _ _ _ _ built also
termination_by sizeOf expr
decreasing_by
  · exact Expr.sizeOf_operand listed
  · exact Nat.lt_trans (Expr.sizeOf_bound inside) (Expr.sizeOf_operand listed)

end BuildM

end AffineKernel
