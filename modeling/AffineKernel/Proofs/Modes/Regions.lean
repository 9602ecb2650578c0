import AffineKernel.Proofs.Modes.Constructing

/-!
# Regions in both modes

Functions, loops and conditionals are begun and ended by operations that act, so
both modes create them, and their bodies are the same blocks. What is bound when
a region is opened is bound again when it is closed, and contexts that were
coupled then are coupled again (`Context.Coupled.leave`), over all that was
constructed inside.

A tensor that is given its storage has none before: what is read from it stays
where it is.
-/

set_option autoImplicit false

namespace AffineKernel

open Context

namespace Context

variable {permit : Permit} {pool wider : Pool} {next : NodeId} {first second after last : Context}

/-- A tensor gets its first storage. -/
theorem Grown.setStorage {context : Context} {tensor : Tensor}
    (free : context.storage.find? tensor.id = none) (value : Value) :
    Grown context (context.setStorage tensor value) where
  module := .refl _
  storage := by
    intro id old found
    rw [Context.setStorage, Table.find?_insert, if_neg, found]
    rintro rfl
    rw [free] at found
    cases found
  mode := rfl

/-- A tensor has storage in both contexts or in none. -/
theorem Aligned.free (aligned : Aligned permit first second) {id : NodeId}
    (free : first.storage.find? id = none) : second.storage.find? id = none := by
  rcases aligned.stored id with ⟨-, none⟩ | ⟨_, _, found, -⟩
  · exact none
  · rw [free] at found
    cases found

/-- Both contexts give a tensor its first storage. -/
theorem Aligned.setStorage (aligned : Aligned permit first second) {tensor : Tensor}
    (small : tensor.id < first.nextId) (free : first.storage.find? tensor.id = none)
    {value partner : Value} (unused : first.Unused value) (alsoUnused : second.Unused partner)
    (twins : Module.Twins first.module second.module value partner) :
    Aligned permit (first.setStorage tensor value) (second.setStorage tensor partner) :=
  { aligned with
    fresh := fun id le => by
      have different : tensor.id ≠ id := Nat.ne_of_lt (Nat.lt_of_lt_of_le small le)
      rw [Context.setStorage, Table.find?_insert, if_neg different]
      exact aligned.fresh id le
    stored := fun id => by
      simp only [Context.setStorage, Table.find?_insert]
      split
      · exact .inr ⟨value, partner, rfl, rfl, twins⟩
      · exact aligned.stored id
    left := by
      obtain ⟨tree, shows_, -⟩ := twins
      exact aligned.left.setStorage free unused shows_
    right := by
      obtain ⟨tree, -, shows_⟩ := twins
      exact aligned.right.setStorage (aligned.free free) alsoUnused shows_ }

theorem Twinned.setStorage (twinned : Twinned permit pool first second) (sound : pool.Sound next)
    {tensor : Tensor} (small : tensor.id < first.nextId)
    (free : first.storage.find? tensor.id = none) {value partner : Value}
    (unused : first.Unused value) (alsoUnused : second.Unused partner)
    (twins : Module.Twins first.module second.module value partner) :
    InStep permit pool first second (first.setStorage tensor value)
      (second.setStorage tensor partner) :=
  BuildM.twinned_of_aligned twinned sound (twinned.aligned.setStorage small free
    unused alsoUnused twins)
    (.setStorage free value) (.setStorage (twinned.aligned.free free) partner) rfl rfl

/-! ## Entering and leaving -/

namespace Coupled

variable (paired : Coupled permit pool first second)
include paired

/-- Contexts with other insertion points, or with more events. -/
theorem turn (aligned : Aligned permit after last) (left : Grown first after)
    (right : Grown second last)
    (same : after.bindings = first.bindings) (also : last.bindings = second.bindings)
    (nextId : after.nextId = first.nextId) : Forward permit pool first second after last pool := by
  have calm : ∀ {before now : Context}, before.Calm pool → now.bindings = before.bindings →
      now.nextId = before.nextId → now.Calm pool := fun calm same next =>
    ⟨next ▸ calm.sound, fun id binding found => calm.plain id binding (by
      rwa [binding?, same] at found)⟩
  have alsoNext : last.nextId = second.nextId :=
    aligned.nextId.symm.trans (nextId.trans paired.twinned.aligned.nextId)
  exact paired.forward (BuildM.twinned_of_aligned paired.twinned paired.sound aligned left right
    same
    also) (calm paired.calm same nextId) (calm paired.alsoCalm also alsoNext)

/-- Both contexts enter the same block. -/
theorem enter {block : BlockId} (small : block.index < first.module.blocks.size) :
    Forward permit pool first second (first.enterRegion.savePoint (.atEnd block))
      (second.enterRegion.savePoint (.atEnd block)) pool :=
  paired.turn (paired.twinned.aligned.push (.atEnd small) ⟨rfl, rfl, rfl, rfl⟩ ⟨rfl, rfl, rfl, rfl⟩)
    (.of_same rfl rfl rfl) (.of_same rfl rfl rfl) rfl rfl rfl

/-- Both contexts get the same place as their insertion point. -/
theorem save {point place : InsertionPoint}
    (same : Module.SamePlace first.module second.module point place) :
    Forward permit pool first second (first.savePoint point) (second.savePoint place) pool :=
  paired.turn (paired.twinned.aligned.push same ⟨rfl, rfl, rfl, rfl⟩ ⟨rfl, rfl, rfl, rfl⟩)
    (.of_same rfl rfl rfl) (.of_same rfl rfl rfl) rfl rfl rfl

/-- Both contexts drop insertion points. -/
theorem drop (count : Nat) {after last : Context}
    (left : Coincides { first with stack := first.stack.drop count } after)
    (right : Coincides { second with stack := second.stack.drop count } last)
    (same : after.bindings = first.bindings) (also : last.bindings = second.bindings)
    (mode : after.mode = first.mode) (alsoMode : last.mode = second.mode) :
    Forward permit pool first second after last pool :=
  paired.turn (paired.twinned.aligned.drop count left right)
    (.of_same left.module left.storage mode) (.of_same right.module right.storage alsoMode) same
    also
    left.nextId

theorem truncate (depth : Nat) :
    Forward permit pool first second (first.truncate depth) (second.truncate depth) pool := by
  refine paired.drop (first.depth - depth) (.refl _) ⟨rfl, rfl, ?_, rfl⟩ rfl rfl rfl rfl
  rw [paired.twinned.aligned.depth]
  rfl

/-- Both contexts bind the variable of a loop. -/
theorem bind {expr : Expr} (member : pool.expr expr) (plain : expr.isAxis = false)
    (free : second.binding? expr.id = none) {value partner : Value}
    (twins : Module.Twins first.module second.module value partner) :
    Forward permit pool first second (first.bind expr.id (.value value))
      (second.bind expr.id (.value partner)) pool := by
  have calm : ∀ {context : Context} {binding : Binding}, context.Calm pool →
      (context.bind expr.id binding).Calm pool := by
    refine fun calm => ⟨calm.sound, fun id other found => ?_⟩
    rw [binding?_bind] at found
    split at found
    · rename_i same
      exact ⟨expr, member, same, plain⟩
    · exact calm.plain id other found
  exact paired.forward ⟨⟨paired.twinned.aligned.alike (.bind ..) (.bind ..),
    paired.twinned.matched.bind_both paired.sound member (.inr free) (.value twins)⟩,
    .of_same rfl rfl rfl, .of_same rfl rfl rfl⟩ (calm paired.calm) (calm paired.alsoCalm)

/-- Both contexts leave a region, and what was bound when it was opened is bound again. -/
theorem leave {done ended : Context} (forward : Forward permit pool first second done ended wider)
    (restored : ∀ id, (done.leaveRegion first.mark).binding? id = first.binding? id)
    (alsoRestored : ∀ id, (ended.leaveRegion second.mark).binding? id = second.binding? id) :
    Forward permit pool first second (done.leaveRegion first.mark) (ended.leaveRegion second.mark)
      wider := by
  have sound := forward.paired.sound
  have grown : Grown first (done.leaveRegion first.mark) :=
    forward.left.trans (.of_same rfl rfl rfl)
  have also : Grown second (ended.leaveRegion second.mark) :=
    forward.right.trans (.of_same rfl rfl rfl)
  have calm : ∀ {before inner : Context} {mark : RegionMark}, before.Calm pool → inner.Calm wider →
      (∀ id, (inner.leaveRegion mark).binding? id = before.binding? id) →
      (inner.leaveRegion mark).Calm wider := by
    refine fun calm inner restored => ⟨inner.sound, fun id binding found => ?_⟩
    obtain ⟨expr, member, rest⟩ := calm.plain id binding (restored id ▸ found)
    exact ⟨expr, forward.le.expr member, rest⟩
  have aligned := forward.paired.twinned.aligned.leave
    (show first.mark.depth = second.mark.depth from paired.twinned.aligned.depth)
  have wider := paired.twinned.matched.widen paired.calm paired.alsoCalm forward.le sound
  have matched := wider.release sound (fun id => .inl (restored id))
    (fun id => .inl (alsoRestored id)) grown also
  exact ⟨forward.le, ⟨⟨aligned, matched⟩, calm paired.calm forward.paired.calm restored,
    calm paired.alsoCalm forward.paired.alsoCalm alsoRestored, forward.paired.obeys,
    grown.mode ▸ paired.deferred⟩, grown, also⟩

end Coupled

end Context

namespace BuildM

variable {permit : Permit} {pool wider : Pool} {first second after last : Context} {expr : Expr}

/-- A step that binds nothing keeps coupled contexts coupled. -/
theorem forward_of_quiet {α β : Type} {act : BuildM α} {leap : BuildM β}
    {post : α → β → Context → Context → Prop} (paired : Coupled permit pool first second)
    (both : Both act leap first second fun a b after last =>
      InStep permit pool first second after last ∧ post a b after last)
    (quiet : Keeps Quiet act) (later : Keeps Later act) (alsoQuiet : Keeps Quiet leap)
    (alsoLater : Keeps Later leap) :
    Both act leap first second fun a b after last =>
      Forward permit pool first second after last pool ∧ post a b after last := by
  refine (both.and_ensures (ensures_calm_of_quiet paired.calm quiet later)
    (ensures_calm_of_quiet paired.alsoCalm alsoQuiet alsoLater)).mono ?_
  rintro a b after last ⟨⟨step, made⟩, ⟨-, calm⟩, ⟨-, alsoCalm⟩⟩
  exact ⟨paired.forward step calm alsoCalm, made⟩

/-! ## Insertion points -/

theorem restorePoint_forward (paired : Coupled permit pool first second) :
    Both restorePoint restorePoint first second fun _ _ after last =>
      Forward permit pool first second after last pool := by
  intro _ _ after last made also
  obtain ⟨left, bindings, mode⟩ := restorePoint_ok made
  obtain ⟨right, alsoBindings, alsoMode⟩ := restorePoint_ok also
  exact paired.drop 1 left right bindings alsoBindings mode alsoMode

theorem currentPoint_forward (paired : Coupled permit pool first second) :
    Both currentPoint currentPoint first second fun _ _ after last =>
      Forward permit pool first second after last pool := by
  simp only [currentPoint, both_bind, both_get]
  cases first.stack with
  | nil => exact Both.throw_left _ _
  | cons point rest =>
      cases second.stack with
      | nil => exact Both.throw_right _ _
      | cons place others => exact (both_pure ..).mpr (.refl paired)

/-! ## Storage -/

theorem createRegion_storage (kind : OpKind) (operands : List Value)
    (attributes : List (String × Attribute)) (args : List ValueType) (context : Context) :
    Ensures (createRegion kind operands attributes args) context
      (fun _ after => after.storage = context.storage ∧ after.nextId = context.nextId)
      fun _ => True := by
  simp only [createRegion, ensures_bind, ensures_get, ensures_pure]
  exact create_storage _ _

/-- The arguments of a new block are nobody's buffers yet. -/
theorem createRegion_unused {kind : OpKind} {operands : List Value}
    {attributes : List (String × Attribute)} {args : List ValueType} {context after : Context}
    {made : OpId × BlockId} (tidy : context.Tidy permit) (store : kind ≠ .store)
    (created : createRegion kind operands attributes args context = .ok made after) (place : Nat) :
    after.Unused (.arg made.2 place) := by
  rw [createRegion, EStateM.get_bind_apply] at created
  obtain ⟨id, middle, made, same⟩ := EStateM.bind_eq_ok created
  cases same
  obtain ⟨point, rest, -, rfl, rfl⟩ := create_ok made
  exact tidy.unused (Module.unseen_arg _ place) store point

/-- Both modes allocate the storage of a tensor that has none. -/
theorem allocTensor_forward {tensor : Tensor} (paired : Coupled permit pool first second)
    (small : tensor.id < first.nextId) (free : first.storage.find? tensor.id = none) :
    Both (allocTensor tensor) (allocTensor tensor) first second fun _ _ after last =>
      Forward permit pool first second after last pool := by
  have both : Both (allocTensor tensor) (allocTensor tensor) first second fun _ _ after last =>
      InStep permit pool first second after last ∧ True := by
    unfold allocTensor checkType
    cases tensor.dtype.rank with
    | error error => exact Both.throw_bind_left _ _ _
    | ok rank =>
        simp only [pure_bind, both_bind, both_modify, both_pure]
        intro buffer other middle between made also
        obtain ⟨step, twins⟩ := createActing_both paired.twinned paired.sound rfl (by simp)
          (by simp) .nil _ _ _ _ made also
        obtain ⟨storage, nextId⟩ := (createValue_storage _ _ _ _ _).of_ok made
        exact ⟨step.trans (step.twinned.setStorage paired.sound (nextId ▸ small) (storage ▸ free)
          (createValue_unused paired.twinned.aligned.left (by simp) made)
          (createValue_unused paired.twinned.aligned.right (by simp) also) twins), trivial⟩
  exact (forward_of_quiet paired both (allocTensor_quiet tensor) (allocTensor_later tensor)
    (allocTensor_quiet tensor) (allocTensor_later tensor)).mono fun _ _ _ _ done => done.1

/-- A new tensor with storage. -/
theorem alloc_concurs (name : String) (shape : List Nat) (dtype : DType) :
    Concurs permit pool (alloc name shape dtype) fun wider tensor => wider.tensor tensor := by
  intro first second paired
  simp only [alloc, placeholder, bind_assoc, pure_bind, both_bind, both_pure]
  have sound : (pool.insertTensor ⟨first.nextId, name, shape, dtype⟩).Sound (first.nextId + 1) :=
    paired.sound.insertTensor rfl
  refine (freshId_both paired (Pool.le_insertTensor ..) sound
    (paired.obeys.insertTensor _)).mono ?_
  rintro _ _ _ _ ⟨rfl, rfl, rfl, forward⟩
  refine (allocTensor_forward forward.paired (Nat.lt_succ_self _)
    (paired.twinned.aligned.fresh first.nextId (Nat.le_refl _))).mono ?_
  exact fun _ _ _ _ later => ⟨rfl, _, forward.trans later, .inr rfl⟩

/-! ## Functions -/

/-- Tensors that have no storage yet, each listed once. -/
structure Unstored (context : Context) (tensors : List Tensor) : Prop where
  distinct : (tensors.map Tensor.id).Nodup
  free : ∀ tensor ∈ tensors, context.storage.find? tensor.id = none

/-- Both modes give tensors the arguments of the same block as storage. -/
theorem bindArgs_both {next : NodeId} (sound : pool.Sound next) (block : BlockId) :
    ∀ (tensors : List Tensor) (position : Nat) {first second : Context},
    Twinned permit pool first second → block.index < first.module.blocks.size →
    (∀ tensor ∈ tensors, tensor.id < first.nextId) → Unstored first tensors →
    (∀ later, position ≤ later → first.Unused (.arg block later) ∧ second.Unused
      (.arg block later)) →
    Both (bindArgs block position tensors) (bindArgs block position tensors) first second
      fun _ _ after last => InStep permit pool first second after last
  | [], _, _, _, twinned, _, _, _, _ => (both_pure ..).mpr (.refl twinned)
  | tensor :: rest, position, first, second, twinned, inside, small, unstored, unused => by
      simp only [bindArgs, both_bind, both_modify]
      have step := twinned.setStorage sound (small tensor List.mem_cons_self)
        (unstored.free tensor List.mem_cons_self) (unused position (Nat.le_refl _)).1
        (unused position (Nat.le_refl _)).2 (twins_arg twinned inside position)
      have later : ∀ place, position + 1 ≤ place →
          (first.setStorage tensor (.arg block position)).Unused (.arg block place) ∧
            (second.setStorage tensor (.arg block position)).Unused (.arg block place) := by
        intro place le
        have different : Value.arg block position ≠ .arg block place := by
          rintro same
          cases same
          exact Nat.lt_irrefl _ le
        obtain ⟨left, right⟩ := unused place (Nat.le_of_succ_le le)
        exact ⟨left.setStorage tensor different, right.setStorage tensor different⟩
      have distinct := List.nodup_cons.mp unstored.distinct
      refine (bindArgs_both sound block rest (position + 1) step.twinned inside
        (fun other listed => small other (List.mem_cons_of_mem _ listed)) ⟨distinct.2, ?_⟩
          later).mono
        fun _ _ _ _ later => step.trans later
      intro other listed
      have different : tensor.id ≠ other.id := fun same =>
        distinct.1 (same ▸ List.mem_map_of_mem listed)
      rw [Context.setStorage, Table.find?_insert, if_neg different]
      exact unstored.free other (List.mem_cons_of_mem _ listed)

/-- Both modes begin a function, whose body is the same block. -/
theorem beginFunction_forward (name : String) {tensors : List Tensor}
    (paired : Coupled permit pool first second) (members : ∀ tensor ∈ tensors, pool.tensor tensor)
    (unstored : Unstored first tensors) :
    Both (beginFunction name tensors) (beginFunction name tensors) first second
      fun made other after last => Forward permit pool first second after last pool ∧
        made.2 = other.2 ∧ made.2.index < after.module.blocks.size ∧
        Module.Siblings after.module last.module made.1 other.1 := by
  refine forward_of_quiet paired ?_ (beginFunction_quiet name tensors)
    (beginFunction_later name tensors) (beginFunction_quiet name tensors)
    (beginFunction_later name tensors)
  simp only [beginFunction, both_bind, both_emit, both_pure]
  rintro ⟨id, block⟩ ⟨partner, _⟩ middle between created also
  obtain ⟨made, rfl, small, siblings⟩ := createRegion_both paired.sound paired.twinned rfl (by simp)
    (by simp) .nil _ _ _ _ created also
  obtain ⟨storage, nextId⟩ := (createRegion_storage _ _ _ _ _).of_ok created
  have unused : ∀ place, 0 ≤ place → middle.Unused (.arg block place) ∧
      between.Unused (.arg block place) := fun place _ =>
    ⟨createRegion_unused paired.twinned.aligned.left (by simp) created place,
      createRegion_unused paired.twinned.aligned.right (by simp) also place⟩
  have free : Unstored middle tensors :=
    ⟨unstored.distinct, fun tensor listed => storage ▸ unstored.free tensor listed⟩
  refine (bindArgs_both paired.sound block tensors 0 made.twinned small (fun tensor listed =>
    nextId ▸ paired.sound.tensorBelow (members tensor listed)) free unused).mono ?_
  rintro _ _ after last bound
  have logged := emit_inStep paired.sound bound.twinned (.openFunction name tensors.length)
    (.openFunction name tensors.length)
  exact ⟨(made.trans bound).trans logged, rfl,
    bound.left.module.block_small small,
    siblings.grow (bound.left.trans logged.left).module (bound.right.trans logged.right).module⟩

/-- Both modes end a function, with the value of the same node as its result. -/
theorem endFunction_forward (paired : Coupled permit pool first second) {result : Option Expr}
    (member : ∀ expr, result = some expr → pool.expr expr) :
    Both (endFunction result) (endFunction result) first second fun _ _ after last =>
      Forward permit pool first second after last pool := by
  have ended : ∀ {first second : Context} {values partners : List Value}, Coupled permit pool first
    second →
      List.Forall₂ (Module.Twins first.module second.module) values partners →
      Both (do let _ ← create { kind := .ret, operands := values })
        (do let _ ← create { kind := .ret, operands := partners }) first second
        fun _ _ after last => Forward permit pool first second after last pool := by
    intro first second values partners paired twins
    have quiet : ∀ values : List Value, Keeps Quiet (do
        let _ ← create { kind := .ret, operands := values }) := fun values =>
      Quiet.chains.bind (create_quiet _) fun _ => Quiet.chains.pure _
    have later : ∀ values : List Value, Keeps Later (do
        let _ ← create { kind := .ret, operands := values }) := fun values =>
      later_chains.bind (later_of_emits (create_emits _)) fun _ => later_chains.pure _
    refine (forward_of_quiet paired ?_ (quiet _) (later _) (quiet _) (later _)).mono
      fun _ _ _ _ done => And.left (b := True) done
    simp only [both_bind, both_pure]
    exact Both.mono (create_both paired.twinned paired.sound rfl (.of_acts rfl (by simp) (by simp))
      (.of_acts rfl (by simp) (by simp)) rfl rfl rfl rfl twins)
      fun _ _ _ _ made => ⟨made.1, trivial⟩
  cases result with
  | none =>
      simp only [endFunction, pure_bind]
      exact ended paired .nil
  | some expr =>
      simp only [endFunction, pure_bind, both_bind (buildValue expr)]
      refine (buildValue_forward paired (member expr rfl)).mono ?_
      rintro value partner middle between ⟨forward, twins⟩
      exact (ended forward.paired (.cons twins .nil)).mono fun _ _ _ _ later => forward.trans later

/-! ## Loops and conditionals -/

theorem buildBound_forward {bound : Bound} (paired : Coupled permit pool first second)
    (members : ∀ expr ∈ bound.exprs, pool.expr expr) :
    Both (buildBound bound) (buildBound bound) first second fun low high after last =>
      Forward permit pool first second after last pool ∧
        LoopBound.Mates after.module last.module low high := by
  have calms : ∀ {context : Context}, context.Calm pool → Ensures (buildBound bound) context
      (fun _ after => Extends context after ∧ after.Calm pool)
      (fun after => Extends context after ∧ after.Calm pool) := fun calm =>
    ensures_calm calm (buildBound_turns calm.sound.names bound members fun _ swept => swept)
      (later_of_emits (buildBound_emits bound)) (Pool.sweptBound_axis calm.sound bound members)
  refine ((buildBound_both paired.sound (fun expr listed => build_both paired.sound paired.obeys
    expr (members expr listed)) paired.twinned).and_ensures (calms paired.calm)
    (calms paired.alsoCalm)).mono ?_
  rintro low high after last ⟨⟨step, mates⟩, ⟨-, calm⟩, ⟨-, alsoCalm⟩⟩
  exact ⟨paired.forward step calm alsoCalm, mates⟩

/-- Both modes begin a loop with the same variable, whose body is the same block. -/
theorem beginLoop_forward (paired : Coupled permit pool first second) {lower upper : Bound}
    (low : ∀ expr ∈ lower.exprs, pool.expr expr) (high : ∀ expr ∈ upper.exprs, pool.expr expr)
    (spec : LoopSpec) :
    Both (beginLoop lower upper spec) (beginLoop lower upper spec) first second
      fun made other after last => made.1 = other.1 ∧ made.2.body = other.2.body ∧
        ∃ wider : Pool, Forward permit pool first second after last wider ∧ wider.expr made.1 ∧
          made.1.isAxis = false ∧ made.2.body.index < after.module.blocks.size ∧
          Module.Siblings after.module last.module made.2.op other.2.op ∧
          Module.Twins after.module last.module made.2.counter other.2.counter := by
  simp only [beginLoop, both_bind, both_pure]
  have accepts : pool.Accepts (.loopVar first.nextId (spec.name.getD "")) :=
    ⟨by simp [Expr.operands], by simp [Expr.bounds], trivial, by simp [Expr.tensor?]⟩
  refine (freshId_both paired (Pool.le_insert ..) (paired.sound.insert rfl accepts)
    (paired.obeys.insert trivial rfl)).mono ?_
  rintro _ _ _ _ ⟨rfl, rfl, -, counted⟩
  refine (buildBound_forward counted.paired fun expr listed =>
    counted.le.expr (low expr listed)).mono ?_
  rintro _ _ _ _ ⟨lowBuilt, lowMates⟩
  refine (buildBound_forward lowBuilt.paired fun expr listed =>
    counted.le.expr (high expr listed)).mono ?_
  rintro _ _ _ _ ⟨highBuilt, highMates⟩
  have mates := lowMates.inStep ⟨highBuilt.paired.twinned, highBuilt.left, highBuilt.right⟩
  have later : ∀ low high : LoopBound, Keeps Later (emitLoop low high spec) :=
    fun low high context => (emitLoop_emits low high spec context).mono
      (fun _ _ made => made.1.nextId_le) fun _ emits => emits.nextId_le
  refine (forward_of_quiet highBuilt.paired (emitLoop_both highBuilt.paired.sound
    highBuilt.paired.twinned mates highMates) (emitLoop_quiet _ _ _) (later _ _)
    (emitLoop_quiet _ _ _) (later _ _)).mono ?_
  rintro header twin after last ⟨looped, body, small, siblings, counters⟩
  exact ⟨rfl, body, _, ((counted.trans lowBuilt).trans highBuilt).trans looped, .inr rfl, rfl,
    small,
    siblings, counters⟩

/-- Both modes begin a conditional, whose body is the same block. -/
theorem beginConditional_forward (paired : Coupled permit pool first second) {condition : Expr}
    (member : pool.expr condition) :
    Both (beginConditional condition) (beginConditional condition) first second
      fun made other after last => Forward permit pool first second after last pool ∧
        made.2 = other.2 ∧ made.2.index < after.module.blocks.size ∧
        Module.Siblings after.module last.module made.1 other.1 := by
  rw [beginConditional]
  cases typed : condition.dtype? with
  | none =>
      rw [valueType, typed]
      exact Both.throw_bind_left _ _ _
  | some dtype =>
      rw [valueType, typed]
      simp only [pure_bind]
      split
      · exact Both.throw_bind_left _ _ _
      simp only [both_bind (buildValue condition)]
      refine (buildValue_forward paired member).mono ?_
      rintro value partner middle between ⟨built, twins⟩
      have quiet : ∀ value : Value, Keeps Quiet (do
          let index ← emitCast value dtype .index
          createRegion .affineIf [index] [("condition", .integerSet .isOne)] []) := fun value =>
        Quiet.chains.bind (quiet_creations.emitCast _ _ _) fun _ => createRegion_quiet _ _ _ _
      have later : ∀ value : Value, Keeps Later (do
          let index ← emitCast value dtype .index
          createRegion .affineIf [index] [("condition", .integerSet .isOne)] []) := fun value =>
        later_chains.bind (later_of_emits (emits_steps.emitCast _ _ _)) fun _ =>
          createRegion_later _ _ _ _
      have begun : Both (do
            let index ← emitCast value dtype .index
            createRegion .affineIf [index] [("condition", .integerSet .isOne)] [])
          (do
            let index ← emitCast partner dtype .index
            createRegion .affineIf [index] [("condition", .integerSet .isOne)] []) middle between
          fun made other after last => InStep permit pool middle between after last ∧ made.2 =
            other.2 ∧
            made.2.index < after.module.blocks.size ∧
            Module.Siblings after.module last.module made.1 other.1 := by
        rw [both_bind]
        refine (emitCast_both built.paired.twinned built.paired.sound twins).mono ?_
        rintro index other _ _ ⟨cast, indices⟩
        refine (createRegion_both built.paired.sound cast.twinned rfl (by simp) (by simp)
          (.cons indices .nil)).mono ?_
        exact fun _ _ _ _ made => ⟨cast.trans made.1, made.2⟩
      exact (forward_of_quiet built.paired begun (quiet _) (later _) (quiet _) (later _)).mono
        fun _ _ _ _ done => ⟨built.trans done.1, done.2⟩

theorem endBody_forward (paired : Coupled permit pool first second) :
    Both endBody endBody first second fun _ _ after last =>
      Forward permit pool first second after last pool := by
  have later := later_of_emits emitYield_emits
  refine (forward_of_quiet paired ?_ emitYield_quiet later emitYield_quiet later).mono
    fun _ _ _ _ done => And.left (b := True) done
  exact (emitYield_both paired.twinned paired.sound).mono fun _ _ _ _ step => ⟨step, trivial⟩

end BuildM

end AffineKernel
