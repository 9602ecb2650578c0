import AffineKernel.Proofs.Semantics.Reduction
import AffineKernel.Proofs.Simulation.Regions

/-!
# Building reductions

A reduction is built in three parts. Its buffer of one element is allocated and
filled with the start value. Then comes a nest of loops, and in the innermost
body the value of the reduced expression is combined with the element
(`BuildM.step_folds`). At last the element is loaded.

`Folds` says what a part of the nest does: from a heap whose last buffer holds
one element, it leaves the heap with another element there, and changes nothing
else. A loop around a part repeats it for every number of its range, so the
whole nest accumulates over the points of the product (`BuildM.nest_folds`). The
nest is written by recursion on its axes here (`BuildM.nest`); this is the same
as to open all loops and to close them all.
-/

set_option autoImplicit false

namespace AffineKernel

/-- A buffer of one element. -/
def Buffer.cell (dtype : DType) (scalar : Scalar) : Buffer := ⟨[1], dtype, #[scalar]⟩

namespace BuildM

/-! ## The nest by recursion -/

/-- Loops over ranges around an action. -/
def nest : List AxisRange → BuildM Unit → BuildM Unit
  | [], inner => inner
  | range :: rest, inner => do
    let header ← emitLoop ⟨.constant range.lower, none⟩ ⟨.constant range.upper, none⟩
      ⟨1, some range.name, none, true⟩
    bindNode range.id (.value header.counter)
    savePoint (.atEnd header.body)
    nest rest inner
    emitYield
    let _ ← restorePoint

/-- The outermost loop may be closed last. -/
theorem closeLoops_succ (count : Nat) :
    closeLoops (count + 1) = (do
      closeLoops count
      emitYield
      let _ ← restorePoint) := by
  induction count with
  | zero => simp [closeLoops]
  | succ count ih =>
      calc closeLoops (count + 2)
        _ = (do
              emitYield
              let _ ← restorePoint
              closeLoops (count + 1)) := by rw [closeLoops]
        _ = (do
              emitYield
              let _ ← restorePoint
              closeLoops count
              emitYield
              let _ ← restorePoint) := by rw [ih]
        _ = _ := by
              rw [closeLoops]
              simp only [bind_assoc]

/-- Loops are opened and closed like brackets. -/
theorem nest_eq (ranges : List AxisRange) (inner : BuildM Unit) :
    (do
      openAxes (ranges.map AxisRange.expr)
      inner
      closeLoops ranges.length) = nest ranges inner := by
  induction ranges with
  | nil => simp [openAxes, nest, closeLoops]
  | cons range rest ih =>
      rw [nest, ← ih]
      simp only [List.map_cons, AxisRange.expr, openAxes, buildBound, pure_bind, bind_assoc,
        List.length_cons, closeLoops_succ]

theorem reduceNest_ranges (acc : Accumulator) (kind : ReduceKind) (dtype : DType) (body : Expr)
    (ranges : List AxisRange) :
    reduceNest acc kind dtype body (ranges.map AxisRange.expr) =
      nest ranges (acc.step kind dtype body) := by
  rw [reduceNest_eq, ← nest_eq, List.length_map]

/-! ## The accumulator -/

/-- A frame in which an accumulator has its buffer and the index zero. -/
structure Accumulator.Ready (acc : Accumulator) (handle : Nat) (module : Module) (frame : Frame) :
    Prop where
  buffer : frame.find? acc.buffer = some (.buffer handle)
  zero : frame.find? acc.zero = some (.scalar (.int 0))
  bufferTyped : ∃ type, module.valueType? acc.buffer = some type
  zeroTyped : ∃ type, module.valueType? acc.zero = some type

namespace Accumulator

variable {acc : Accumulator} {handle : Nat} {module wider : Module} {frame next : Frame}

theorem Ready.transfer (ready : acc.Ready handle module frame) (extends_ : module.Extends wider)
    (agrees : Frame.Agrees module frame next) : acc.Ready handle wider next := by
  obtain ⟨bufferType, bufferTyped⟩ := ready.bufferTyped
  obtain ⟨zeroType, zeroTyped⟩ := ready.zeroTyped
  refine ⟨?_, ?_, ⟨_, extends_.valueType? bufferTyped⟩, ⟨_, extends_.valueType? zeroTyped⟩⟩
  · rw [agrees _ _ bufferTyped]
    exact ready.buffer
  · rw [agrees _ _ zeroTyped]
    exact ready.zero

variable {run : Machine.RunBlock} {id : OpId} {op : Operation} {base : Array Buffer}
  {machine : Machine} {scalar result : Scalar} {dtype : DType}

/-- A load of the accumulator yields its element. -/
theorem load_defines (run : Machine.RunBlock) (ready : acc.Ready base.size wider frame)
    (carries : module.Carries id op
      { kind := .load, operands := [acc.buffer, acc.zero], results := [.scalar acc.dtype],
        attributes := acc.attributes })
    (heap : machine.heap = base.push (.cell dtype scalar)) :
    Machine.Defines module run id frame machine (.ok scalar) := by
  have attr : (op.attr? "map").bind Attribute.asMap? = some ⟨0, 1, [.symbol 0]⟩ := by
    rw [Operation.attr?, carries.attributes]
    rfl
  have held : machine.heap[base.size]? = some (.cell dtype scalar) := by
    rw [heap]
    exact Array.getElem?_push_size
  have zero : [acc.zero].map frame.find? = [0].map fun number => some (.scalar (.int number)) := by
    simp [ready.zero]
  exact Machine.load_defines carries.found carries.kind carries.operands attr ready.buffer held zero

/-- A store into the accumulator replaces its element. -/
theorem store_apply (run : Machine.RunBlock) (ready : acc.Ready base.size wider frame) {value : Value}
    (carries : module.Carries id op
      { kind := .store, operands := [value, acc.buffer, acc.zero], attributes := acc.attributes })
    (heap : machine.heap = base.push (.cell dtype scalar))
    (found : frame.find? value = some (.scalar result)) :
    ∃ last, Machine.runOp module run id frame machine = .ok (.next frame) last ∧
      last.heap = base.push (.cell dtype result) := by
  have attr : (op.attr? "map").bind Attribute.asMap? = some ⟨0, 1, [.symbol 0]⟩ := by
    rw [Operation.attr?, carries.attributes]
    rfl
  have held : machine.heap[base.size]? = some (.cell dtype scalar) := by
    rw [heap]
    exact Array.getElem?_push_size
  have zero : [acc.zero].map frame.find? = [0].map fun number => some (.scalar (.int number)) := by
    simp [ready.zero]
  have delivers : Machine.Realizes (Machine.runOp module run id frame machine)
      (.ok (Buffer.cell dtype result)) fun written step last =>
        step = .next frame ∧ last.heap = machine.heap.modify base.size fun _ => written :=
    ⟨by simp, Machine.store_delivers carries.found carries.kind carries.operands attr found
      ready.buffer held zero⟩
  obtain ⟨step, last, ran, rfl, stored⟩ := delivers.exists_ok rfl
  refine ⟨last, ran, ?_⟩
  rw [stored, heap]
  apply Array.ext_getElem?
  intro position
  rw [Array.getElem?_modify, Array.getElem?_push, Array.getElem?_push]
  by_cases end_ : base.size = position
  · simp [end_]
  · rw [if_neg end_, if_neg (Ne.symm end_), if_neg (Ne.symm end_)]

/-- The last three operations of the innermost body: the element is loaded, combined with a value,
and stored. -/
theorem step_realizes {kind : ReduceKind} {value : Value} {data : Scalar} {load combine store : OpId}
    {loadOp combineOp storeOp : Operation} (ready : acc.Ready base.size module frame)
    (loadCarries : wider.Carries load loadOp
      { kind := .load, operands := [acc.buffer, acc.zero], results := [.scalar acc.dtype],
        attributes := acc.attributes })
    (combineCarries : wider.Carries combine combineOp
      { kind := kind.combine acc.dtype, operands := [value, .result load 0],
        results := [.scalar acc.dtype] })
    (storeCarries : wider.Carries store storeOp
      { kind := .store, operands := [.result combine 0, acc.buffer, acc.zero],
        attributes := acc.attributes })
    (loadNew : module.valueType? (.result load 0) = none)
    (combineNew : module.valueType? (.result combine 0) = none)
    (typed : module.valueType? value = some (.scalar acc.dtype))
    (found : frame.find? value = some (.scalar data)) (dataFits : data.Fits acc.dtype)
    (heap : machine.heap = base.push (.cell acc.dtype scalar)) (fits : scalar.Fits acc.dtype) :
    Machine.Realizes
      (Machine.advance (Machine.runOp wider run) [load, combine, store] frame machine)
      (Meaning.accumulate kind acc.dtype data scalar) fun result step last =>
        (∃ next, step = .next next ∧ Frame.Agrees module frame next) ∧
          last.heap = base.push (.cell acc.dtype result) ∧ result.Fits acc.dtype := by
  obtain ⟨result, known, resultFits⟩ := Meaning.accumulate_fits kind dataFits fits
  have kinds : combineOp.kind = kind.combine acc.dtype := combineCarries.kind
  have arithmetic : combineOp.kind.isArithmetic = true := by
    rw [kinds]
    exact kind.combine_isArithmetic acc.dtype
  have split : [load, combine, store] = [load] ++ ([combine] ++ [store]) := rfl
  rw [split, Machine.advance_append, ← bind_pure (Meaning.accumulate kind acc.dtype data scalar)]
  change Machine.Realizes _ (Except.ok scalar >>= fun current =>
    Meaning.accumulate kind acc.dtype data current >>= pure) _
  refine ((load_defines run ready loadCarries heap).realizes
    (show Proper acc.dtype (.ok scalar) from fits)).bind ?_
  rintro current step loaded same ⟨rfl, loadedHeap, -⟩
  cases same
  -- The value is older than the result of the load, so it is still there.
  have agrees : Frame.Agrees module frame (frame.define (.result load 0) (.scalar scalar)) :=
    .define loadNew
  have entered := Frame.ne_nil_of_find? found
  have stillFound : (frame.define (.result load 0) (.scalar scalar)).find? value =
      some (.scalar data) := by
    rw [agrees value _ typed]
    exact found
  have combines : Machine.Defines wider run combine
      (frame.define (.result load 0) (.scalar scalar)) loaded
      (Meaning.accumulate kind acc.dtype data scalar) := by
    rw [Meaning.accumulate, ← kinds]
    exact Machine.arithmetic_defines combineCarries.found arithmetic combineCarries.results
      combineCarries.operands stillFound (Frame.find?_define_self entered)
  have proper : Proper acc.dtype (Meaning.accumulate kind acc.dtype data scalar) := by
    rw [known]
    exact resultFits
  rw [Step.andThen, Machine.advance_append]
  refine (combines.realizes proper).bind ?_
  rintro combined step last - ⟨rfl, lastHeap, combinedFits⟩
  have agreesBoth : Frame.Agrees module frame
      ((frame.define (.result load 0) (.scalar scalar)).define (.result combine 0)
        (.scalar combined)) :=
    agrees.trans (.refl _ module) (.define combineNew)
  obtain ⟨final, stored, finalHeap⟩ := store_apply run
    (ready.transfer (.refl _ module) agreesBoth) storeCarries
    (lastHeap.trans (loadedHeap.trans heap))
    (Frame.find?_define_self (Frame.define_ne_nil entered))
  rw [Step.andThen, Machine.advance_singleton, stored]
  exact .of_ok ⟨⟨_, rfl, agreesBoth⟩, finalHeap, combinedFits⟩

end Accumulator

end BuildM

/-- One more buffer on the heap is not seen by a context. -/
theorem Represents.push {nodes : Expr → Prop} {setting : Setting} {context : Context}
    {frame : Frame} {heap : Array Buffer} (represents : Represents nodes setting context frame heap)
    (buffer : Buffer) : Represents nodes setting context frame (heap.push buffer) :=
  { represents with
    stored := by
      intro id value stored
      obtain ⟨handle, old, backs⟩ := represents.stored stored
      have small : handle < heap.size := (Array.getElem?_eq_some_iff.mp backs.held).1
      refine ⟨handle, old, { backs with held := ?_ }⟩
      rw [Array.getElem?_push_lt small, ← Array.getElem?_eq_getElem small]
      exact backs.held }

/-! ## Parts of the nest -/

/-- What is built between two contexts accumulates in a buffer: from a heap whose last buffer has
one element, it leaves the heap with another element there. The loop variables of `axes` are free
before. -/
structure Folds (nodes : Expr → Prop) (acc : BuildM.Accumulator) (axes : List NodeId) (depth : Nat)
    (before after : Context) (effect : Setting → Scalar → Except Fault Scalar) : Prop where
  emits : Context.Emits [] before after
  storage : after.storage = before.storage
  runs : ∃ ops, Lists ops before after ∧ ∀ (module : Module) (fuel : Nat) (setting : Setting)
    (frame : Frame) (base : Array Buffer) (scalar : Scalar) (machine : Machine),
    depth ≤ fuel → after.Leads module → (∀ id ∈ axes, setting.env id = none) →
    Represents nodes setting before frame base → acc.Ready base.size before.module frame →
    machine.heap = base.push (.cell acc.dtype scalar) → scalar.Fits acc.dtype →
    Machine.Realizes
      (Machine.advance (Machine.runOp module (Machine.runBlock module fuel)) ops frame machine)
      (effect setting scalar) fun result step last =>
        (∃ next, step = .next next ∧ Frame.Agrees before.module frame next) ∧
          last.heap = base.push (.cell acc.dtype result) ∧ result.Fits acc.dtype

namespace BuildM

variable {nodes : Expr → Prop} {context : Context}

/-- In the innermost body the value of the reduced expression is accumulated. -/
theorem step_folds (graph : Graph nodes) (acc : Accumulator) (kind : ReduceKind) {body : Expr}
    (flat : body.isFlat = true) (member : nodes body) (ends : context.AtEnds) :
    Ensures (acc.step kind acc.dtype body) context
      (fun _ after => Folds nodes acc [] 0 context after fun setting scalar => do
        let data ← setting.value body
        Meaning.accumulate kind acc.dtype data scalar)
      (fun _ => True) := by
  rw [Accumulator.step, ensures_bind]
  refine ensures_valueType (fun actual type => ?_) trivial
  dsimp only
  split
  · trivial
  rename_i same
  rw [Classical.not_not.mp same] at type
  refine operand_built (build_built graph body flat member ends)
    fun value middle bound computes => ?_
  simp only [Accumulator.load, Accumulator.store, createValue, ensures_bind, ensures_pure]
  refine (create_creates _ middle).mono (fun load loaded loads => ?_) fun _ _ => trivial
  refine (create_creates _ loaded).mono (fun combine combined combines => ?_) fun _ _ => trivial
  refine (create_creates _ combined).mono (fun store after stores => ?_) fun _ _ => trivial
  have middleEnds := computes.emits.atEnds ends
  have loadedEnds := loads.emits.atEnds middleEnds
  have combinedEnds := combines.emits.atEnds loadedEnds
  obtain ⟨ops, lists, performs⟩ := computes.runs
  obtain ⟨loadOp, loadCarries, -⟩ := loads.carries
  obtain ⟨combineOp, combineCarries, -⟩ := combines.carries
  obtain ⟨storeOp, storeCarries, -⟩ := stores.carries
  refine
    { emits := ((computes.emits.trans loads.emits).trans combines.emits).trans stores.emits
      storage := stores.storage.trans (combines.storage.trans (loads.storage.trans computes.storage))
      runs := ⟨ops ++ [load, combine, store], ?_, ?_⟩ }
  · have last := Computes.Lists.append loads.lists loads.emits.stack
      (Computes.Lists.append combines.lists combines.emits.stack stores.lists)
    exact Computes.Lists.append lists computes.emits.stack last
  intro module fuel setting frame base scalar machine _ leads _ represents ready heap fits
  have combinedLeads := stores.emits.leads combinedEnds leads
  have loadedLeads := combines.emits.leads loadedEnds combinedLeads
  have middleLeads := loads.emits.leads middleEnds loadedLeads
  have grown : context.module.Extends middle.module :=
    (computes.emits.grows ends).mono fun _ _ => trivial
  have grownLoaded : middle.module.Extends loaded.module :=
    (loads.emits.grows middleEnds).mono fun _ _ => trivial
  have starts : Represents nodes setting context frame machine.heap := heap ▸ represents.push _
  rw [Machine.advance_append]
  refine (performs module _ setting frame machine middleLeads.extends_ starts).bind ?_
  rintro data step last meaning ⟨next, rfl, sameHeap, agrees, reached, -⟩
  have bears := reached.operand member bound meaning type
  have combineNew : middle.module.valueType? (.result combine 0) = none := by
    cases known : middle.module.valueType? (.result combine 0) with
    | none => rfl
    | some type =>
        rw [← combines.untyped 0]
        exact (grownLoaded.valueType? known).symm
  refine (Accumulator.step_realizes (ready.transfer grown agrees)
    (loadCarries.of_extends loadedLeads.extends_) (combineCarries.of_extends combinedLeads.extends_)
    (storeCarries.of_extends leads.extends_) (loads.untyped 0) combineNew bears.typed bears.found
    bears.fits (sameHeap.trans heap) fits).mono ?_
  rintro result step final - ⟨⟨further, rfl, stillAgrees⟩, kept⟩
  exact ⟨⟨further, rfl, agrees.trans grown stillAgrees⟩, kept⟩

/-- What is accumulated over the points of a product of ranges. -/
def overPoints (effect : Setting → Scalar → Except Fault Scalar) (ranges : List AxisRange)
    (setting : Setting) (scalar : Scalar) : Except Fault Scalar :=
  (points ranges setting.env).foldlM
    (fun current point => effect { setting with env := point } current) scalar

theorem overPoints_cons (effect : Setting → Scalar → Except Fault Scalar) (range : AxisRange)
    (rest : List AxisRange) (setting : Setting) (scalar : Scalar) :
    overPoints effect (range :: rest) setting scalar =
      range.numbers.foldlM
        (fun current number => overPoints effect rest (setting.count range.id number) current)
        scalar := by
  rw [overPoints, points]
  induction range.numbers generalizing scalar with
  | nil => rfl
  | cons number numbers ih =>
      rw [List.flatMap_cons, List.foldlM_append, List.foldlM_cons]
      congr 1
      funext current
      exact ih current

/-- Leaving a block. -/
theorem ensures_restorePoint {context : Context} {point : InsertionPoint}
    {rest : List InsertionPoint} {done : InsertionPoint → Context → Prop}
    (stack : context.stack = point :: rest)
    (left : done point ({ context with stack := rest }.emit
      (.restorePoint point.block rest.length))) :
    Ensures restorePoint context done (fun _ => True) := by
  simp only [restorePoint, ensures_bind, ensures_get, stack, ensures_set, ensures_emit,
    ensures_pure]
  exact left

variable {acc : Accumulator} {inner : BuildM Unit}
  {effect : Setting → Scalar → Except Fault Scalar}

/-- One loop around a part of the nest. -/
theorem loop_folds (graph : Graph nodes) {range : AxisRange} {rest : List AxisRange}
    (member : nodes range.expr) (free : range.id ∉ rest.map AxisRange.id)
    {id : OpId} {body : BlockId} {created inside done last after : Context}
    (encloses : Encloses
      (loopDraft ⟨.constant range.lower, none⟩ ⟨.constant range.upper, none⟩
        ⟨1, some range.name, none, true⟩)
      [.scalar .index] id body context created inside done last after)
    (counts : inside.bindings = (created.bind range.id (.value (.arg body 0))).bindings)
    (insideStorage : inside.storage = created.storage) (afterStorage : after.storage = done.storage)
    (emits : Context.Emits [] context after)
    (folds : Folds nodes acc (rest.map AxisRange.id) rest.length inside done
      (overPoints effect rest))
    (ends : context.AtEnds) (rooted : context.Rooted) :
    Folds nodes acc ((range :: rest).map AxisRange.id) (range :: rest).length context after
      (overPoints effect (range :: rest)) := by
  have opens := encloses.opens
  have grown : context.module.Extends inside.module := by
    rw [encloses.insideModule]
    exact (opens.creates.emits.grows ends).mono fun _ _ => trivial
  obtain ⟨ops, lists, performs⟩ := folds.runs
  refine
    { emits
      storage := by rw [afterStorage, folds.storage, insideStorage, opens.creates.storage]
      runs := ⟨[id], encloses.listsOp ends rooted, ?_⟩ }
  intro module fuel setting frame base scalar machine deep leads unset represents ready heap fits
  obtain ⟨fuel, rfl⟩ : ∃ less, fuel = less + 1 := ⟨fuel - 1, by simp at deep; omega⟩
  obtain ⟨op, carries, regions⟩ := encloses.carries ends leads
  obtain ⟨yield, yieldOp, listed, yieldCarries⟩ := encloses.block? lists rooted leads
  have typed : created.module.valueType? (.arg body 0) = some (.scalar .index) := by
    simp [Module.valueType?, opens.listed]
  -- One iteration: the body is entered with its number, and the part inside runs.
  have each : ∀ (number : Int) (state : Scalar) (machine : Machine), number ∈ range.numbers →
      (machine.heap = base.push (.cell acc.dtype state) ∧ state.Fits acc.dtype) →
      Machine.Realizes
        (Machine.advance (Machine.runOp module (Machine.runBlock module fuel)) (ops ++ [yield])
          (frame.enter body [.scalar (.int number)]) machine)
        (overPoints effect rest (setting.count range.id number) state) fun next _ last =>
          last.heap = base.push (.cell acc.dtype next) ∧ next.Fits acc.dtype := by
    intro number state machine inRange holds
    have bounds := mem_counters inRange
    have numberFits : (Scalar.int number).Fits .index := by
      have least := range.lower.le_toInt
      have greatest := range.upper.toInt_lt
      exact fits_index_iff.mpr ⟨by omega, by omega⟩
    have entered := represents.enter opens ends [.scalar (.int number)]
    have counted := entered.count (Frame.find?_enter_arg rfl) typed numberFits
      (fun other same => by rw [graph.unique other member same]; rfl)
      (fun _ _ _ known => Expr.value_mono (Env.le_set (unset range.id (by simp)) number) _ known)
    have starts : Represents nodes (setting.count range.id number) inside
        (frame.enter body [.scalar (.int number)]) base := by
      refine counted.transfer (fun found => ?_) insideStorage ?_ counted.entered (.refl _ _)
      · rwa [Context.binding?, counts] at found
      · rw [encloses.insideModule]
        exact .refl _ _
    have stillUnset : ∀ id ∈ rest.map AxisRange.id,
        (setting.count range.id number).env id = none := by
      intro other listed
      have different : other ≠ range.id := fun same => free (same ▸ listed)
      have kept : (setting.count range.id number).env other = setting.env other := if_neg different
      rw [kept]
      exact unset other (List.mem_cons_of_mem _ listed)
    rw [Machine.advance_append, ← bind_pure (overPoints ..)]
    refine (performs module fuel _ _ base state machine (by simp at deep; omega)
      (encloses.doneLeads ends leads) stillUnset starts
      (ready.transfer grown (.enter opens.size_le _)) holds.1 holds.2).bind ?_
    rintro result step last - ⟨⟨next, rfl, -⟩, kept⟩
    rw [Step.andThen, Machine.advance_yield yieldCarries]
    exact .of_ok kept
  have lower : (⟨.constant range.lower, none⟩ : LoopBound).Denotes frame range.lower.toInt :=
    .constant range.lower
  have upper : (⟨.constant range.upper, none⟩ : LoopBound).Denotes frame range.upper.toInt :=
    .constant range.upper
  have small : (⟨1, some range.name, none, true⟩ : LoopSpec).step < 2 ^ 63 :=
    show 1 < 2 ^ 63 by decide
  rw [Machine.advance_singleton, overPoints_cons]
  have contained : range.upper.toInt + max ((1 : Nat) : Int) 1 ≤ 2 ^ 63 :=
    Int.add_one_le_of_lt range.upper.toInt_lt
  refine (Machine.loop_realizes_of_contained carries.found carries.kind carries.operands
    carries.attributes regions listed small lower upper contained each ⟨heap, fits⟩).mono ?_
  rintro result step last - ⟨rfl, kept⟩
  exact ⟨⟨frame, rfl, .refl _ _⟩, kept⟩

/-- A nest of loops accumulates over the points of the product of its ranges. -/
theorem nest_folds (graph : Graph nodes)
    (inside : ∀ {context : Context}, context.AtEnds →
      Ensures inner context (fun _ after => Folds nodes acc [] 0 context after effect)
        fun _ => True) (ranges : List AxisRange) (members : ∀ range ∈ ranges, nodes range.expr)
    (distinct : (ranges.map AxisRange.id).Nodup) (ends : context.AtEnds) (rooted : context.Rooted) :
    Ensures (nest ranges inner) context
      (fun _ after => Folds nodes acc (ranges.map AxisRange.id) ranges.length context after
        (overPoints effect ranges))
      (fun _ => True) := by
  induction ranges generalizing context with
  | nil =>
      have single : overPoints effect [] = effect := by
        funext setting scalar
        simp [overPoints, points]
      rw [nest, single]
      exact inside ends
  | cons range rest ih =>
      rw [List.map_cons, List.nodup_cons] at distinct
      rw [nest, ensures_bind]
      refine (emitLoop_opened _ _ _ rooted.receives).mono (fun header created opens => ?_)
        fun _ _ => trivial
      simp only [ensures_bind, ensures_bindNode, ensures_savePoint]
      have bound := opens.creates.emits.trans (.bind created range.id (.value header.counter))
      have pushed := bound.push opens.size_le
      have bodyIs : header.body.index < created.module.blocks.size :=
        Module.index_lt_of_block? opens.listed
      have insideRooted : ((created.bind range.id (.value header.counter)).savePoint
          (.atEnd header.body)).Rooted := by
        rintro block ⟨point, listed, rfl⟩
        rw [pushed.stack] at listed
        rcases List.mem_cons.mp listed with rfl | old
        · exact bodyIs
        · exact Nat.lt_of_lt_of_le (rooted _ ⟨point, old, rfl⟩) pushed.blocks_le
      refine (ih (fun other listed => members other (by simp [listed])) distinct.2
        (pushed.atEnds ends) insideRooted).mono (fun _ done folds => ?_) fun _ _ => trivial
      refine (emitYield_creates done).mono (fun _ last yields => ?_) fun _ _ => trivial
      obtain ⟨yield, yields⟩ := yields
      have whole := (pushed.trans folds.emits).trans yields.emits
      refine ensures_restorePoint whole.stack ?_
      have encloses : Encloses _ _ header.op header.body context created
          ((created.bind range.id (.value header.counter)).savePoint (.atEnd header.body)) done last
          ({ last with stack := context.stack }.emit
            (.restorePoint header.body context.stack.length)) :=
        { opens
          insideModule := rfl
          insideStack := pushed.stack
          fills := folds.emits
          yields := ⟨yield, yields⟩
          afterModule := rfl
          afterStack := rfl }
      exact loop_folds graph (members range (by simp)) distinct.1 encloses rfl rfl yields.storage
        (whole.pop.trans (.emit _ _)) folds ends rooted

/-! ## The whole reduction -/

/-- What opening an accumulator does to a context, and to a run: the buffer is allocated and holds
the start value, and the nodes that were represented still are. -/
structure Starts (kind : ReduceKind) (acc : Accumulator) (before after : Context) : Prop where
  emits : Context.Emits [] before after
  storage : after.storage = before.storage
  kept : ∀ {id : NodeId} {binding : Binding}, after.binding? id = some binding →
    before.binding? id = some binding
  runs : ∃ ops, Lists ops before after ∧ ∀ (nodes : Expr → Prop) (module : Module)
    (run : Machine.RunBlock) (setting : Setting) (frame : Frame) (machine : Machine),
    after.module.Extends module → Represents nodes setting before frame machine.heap →
    ∃ start next last, Meaning.constant acc.dtype (kind.identity acc.dtype) = .ok start ∧
      start.Fits acc.dtype ∧
      Machine.advance (Machine.runOp module run) ops frame machine = .ok (.next next) last ∧
      last.heap = machine.heap.push (.cell acc.dtype start) ∧
      Frame.Agrees before.module frame next ∧ acc.Ready machine.heap.size after.module next ∧
      Represents nodes setting after next machine.heap

theorem openAccumulator_starts (kind : ReduceKind) (dtype : DType) (ends : context.AtEnds) :
    Ensures (openAccumulator kind dtype) context
      (fun acc after => acc.dtype = dtype ∧ Starts kind acc context after) (fun _ => True) := by
  obtain ⟨scalar, known, fits⟩ := Meaning.constant_identity_fits kind dtype
  have proper : Proper dtype (Meaning.constant dtype (kind.identity dtype)) := by
    rw [known]
    exact fits
  rw [openAccumulator, ensures_bind, createValue, ensures_bind]
  refine (create_creates _ context).mono (fun alloc first allocs => ?_) fun _ _ => trivial
  have firstEnds := allocs.emits.atEnds ends
  rw [ensures_pure, ensures_bind]
  -- The two constants are no nodes, so they are computed for the empty set of nodes.
  refine (createConstant_computes (fun _ => False) (Meaning.constant_proper (.int 0) .index)
    firstEnds).mono ?_ fun _ _ => trivial
  rintro zero second ⟨zeroComputes, zeroTyped⟩
  have secondEnds := zeroComputes.emits.atEnds firstEnds
  rw [ensures_bind]
  refine (createConstant_computes (fun _ => False) proper secondEnds).mono ?_ fun _ _ => trivial
  rintro start third ⟨startComputes, startTyped⟩
  have thirdEnds := startComputes.emits.atEnds secondEnds
  have constants := zeroComputes.seq_keep startComputes firstEnds fun agrees holds =>
    ⟨holds.1, (agrees _ _ zeroTyped).trans holds.2⟩
  simp only [Accumulator.store, ensures_bind, ensures_pure]
  refine (create_creates _ third).mono (fun store after stores => ⟨trivial, ?_⟩) fun _ _ => trivial
  obtain ⟨ops, lists, performs⟩ := constants.runs
  obtain ⟨allocOp, allocCarries, -⟩ := allocs.carries
  obtain ⟨storeOp, storeCarries, -⟩ := stores.carries
  have kept : ∀ {id : NodeId} {binding : Binding}, after.binding? id = some binding →
      context.binding? id = some binding := by
    intro id binding found
    rw [Context.binding?, stores.bindings] at found
    rcases constants.fresh found with old | ⟨_, impossible, -⟩
    · rwa [Context.binding?, allocs.bindings] at old
    · exact impossible.elim
  have contextFirst : context.module.Extends first.module :=
    (allocs.emits.grows ends).mono fun _ _ => trivial
  have firstThird : first.module.Extends third.module :=
    (constants.emits.grows firstEnds).mono fun _ _ => trivial
  have secondThird : second.module.Extends third.module :=
    (startComputes.emits.grows secondEnds).mono fun _ _ => trivial
  have thirdAfter : third.module.Extends after.module :=
    (stores.emits.grows thirdEnds).mono fun _ _ => trivial
  have storage : after.storage = context.storage := by
    rw [stores.storage, constants.storage, allocs.storage]
  refine
    { emits := (allocs.emits.trans constants.emits).trans stores.emits
      storage
      kept
      runs := ⟨alloc :: (ops ++ [store]), ?_, ?_⟩ }
  · exact Computes.Lists.append allocs.lists allocs.emits.stack
      (Computes.Lists.append lists constants.emits.stack stores.lists)
  intro nodes module run setting frame machine extends_ represents
  have thirdExtends := thirdAfter.trans extends_ fun _ _ _ => trivial
  have firstExtends := firstThird.trans thirdExtends fun _ _ _ => trivial
  have allocated : Machine.runOp module run alloc frame machine =
      .ok (.next (frame.define (.result alloc 0) (.buffer machine.heap.size)))
        { machine with heap := machine.heap.push (.cell dtype (Scalar.zero dtype)) } :=
    Machine.alloc_apply (allocCarries.of_extends firstExtends).found allocCarries.kind
      allocCarries.results rfl
  have agreesAlloc : Frame.Agrees context.module frame
      (frame.define (.result alloc 0) (.buffer machine.heap.size)) := .define (allocs.untyped 0)
  have begins : Represents (fun _ => False) setting first
      (frame.define (.result alloc 0) (.buffer machine.heap.size))
      (machine.heap.push (.cell dtype (Scalar.zero dtype))) := by
    refine ((represents.narrow fun _ impossible => impossible.elim).transfer (fun found => ?_)
      allocs.storage contextFirst (Frame.define_ne_nil represents.entered) agreesAlloc).push _
    rwa [Context.binding?, allocs.bindings] at found
  have both : (do return (← Meaning.constant .index ((Literal.int 0).toAttribute .index),
      ← Meaning.constant dtype (kind.identity dtype))) = Except.ok (Scalar.int 0, scalar) := by
    rw [known]
    rfl
  obtain ⟨step, middle, ran, next, rfl, heap, agrees, -, zeroHolds, startHolds⟩ :=
    (performs module run setting _ ⟨machine.heap.push (.cell dtype (Scalar.zero dtype)),
      machine.log⟩ thirdExtends begins).exists_ok both
  have bufferTyped := allocCarries.valueType? rfl
  have ready : Accumulator.Ready ⟨.result alloc 0, zero, kind.name ++ "_rv", dtype⟩
      machine.heap.size after.module next := by
    refine ⟨?_, zeroHolds.2, ?_, ?_⟩
    · rw [agrees _ _ bufferTyped]
      exact Frame.find?_define_self represents.entered
    · exact ⟨_, thirdAfter.valueType? (firstThird.valueType? bufferTyped)⟩
    · exact ⟨_, thirdAfter.valueType? (secondThird.valueType? zeroTyped)⟩
  obtain ⟨last, stored, lastHeap⟩ := Accumulator.store_apply run ready
    (storeCarries.of_extends extends_) heap startHolds.2
  have agreesAll := agreesAlloc.trans contextFirst agrees
  refine ⟨scalar, next, last, known, fits, ?_, lastHeap, agreesAll, ready, ?_⟩
  · rw [Machine.advance_next _ allocated, Machine.advance_append_next _ ran,
      Machine.advance_singleton, stored]
  · have grown := (contextFirst.trans firstThird fun _ _ _ => trivial).trans thirdAfter
      fun _ _ _ => trivial
    exact represents.transfer kept storage grown (Frame.ne_nil_of_find? zeroHolds.2) agreesAll

/-- What is built for a reduction: a run of its operations yields the result of the reduction, and
leaves one more buffer on the heap. -/
structure Reduces (nodes : Expr → Prop) (kind : ReduceKind) (dtype : DType) (body : Expr)
    (ranges : List AxisRange) (value : Value) (before after : Context) : Prop where
  emits : Context.Emits [] before after
  runs : ∃ ops, Lists ops before after ∧ ∀ (module : Module) (fuel : Nat) (setting : Setting)
    (frame : Frame) (machine : Machine),
    ranges.length ≤ fuel → after.Leads module → (∀ range ∈ ranges, setting.env range.id = none) →
    Represents nodes setting before frame machine.heap →
    Machine.Realizes
      (Machine.advance (Machine.runOp module (Machine.runBlock module fuel)) ops frame machine)
      (Meaning.reduce kind dtype body ranges setting.env setting.memory) fun result step last =>
        ∃ next, step = .next next ∧ next.find? value = some (.scalar result) ∧
          result.Fits dtype ∧ last.heap = machine.heap.push (.cell dtype result)

namespace Reduces

variable {kind : ReduceKind} {dtype : DType} {body : Expr} {ranges : List AxisRange} {value : Value}
  {after : Context}

/-- An event before a reduction changes nothing. -/
theorem of_emit {event : Event}
    (reduces : Reduces nodes kind dtype body ranges value (context.emit event) after) :
    Reduces nodes kind dtype body ranges value context after where
  emits := (Context.Emits.emit context event).trans reduces.emits
  runs := by
    obtain ⟨ops, lists, performs⟩ := reduces.runs
    refine ⟨ops, lists, fun module fuel setting frame machine deep leads unset represents => ?_⟩
    exact performs module fuel setting frame machine deep leads unset (represents.emit event)

/-- Binding a node after a reduction changes nothing. -/
theorem bind (reduces : Reduces nodes kind dtype body ranges value context after) (id : NodeId)
    (binding : Binding) :
    Reduces nodes kind dtype body ranges value context (after.bind id binding) where
  emits := reduces.emits.trans (.bind after id binding)
  runs := reduces.runs

end Reduces

section Whole

variable (graph : Graph nodes) {id : NodeId} {dtype : DType} {kind : ReduceKind} {body : Expr}
  (flat : body.isFlat = true) (member : nodes body) {ranges : List AxisRange}
  (members : ∀ range ∈ ranges, nodes range.expr) (distinct : (ranges.map AxisRange.id).Nodup)
include graph flat member members distinct

/-- The operations of a reduction. -/
theorem synthesize_reduces (ends : context.AtEnds) (rooted : context.Rooted) :
    Ensures (do
        let acc ← openAccumulator kind dtype
        inRegion (reduceNest acc kind dtype body (ranges.map AxisRange.expr))
        acc.load) context
      (fun value after => Reduces nodes kind dtype body ranges value context after)
      (fun _ => True) := by
  rw [ensures_bind]
  refine (openAccumulator_starts kind dtype ends).mono ?_ fun _ _ => trivial
  rintro acc opened ⟨rfl, starts⟩
  have openedEnds := starts.emits.atEnds ends
  have insideEnds : opened.enterRegion.AtEnds := openedEnds
  have insideRooted : opened.enterRegion.Rooted := starts.emits.rooted rooted
  rw [ensures_bind, ensures_inRegion, reduceNest_ranges]
  refine (nest_folds graph (step_folds graph acc kind flat member) ranges members distinct
    insideEnds insideRooted).mono (fun _ done folds => ?_) fun _ _ => trivial
  simp only [Accumulator.load, createValue, ensures_bind, ensures_pure]
  refine (create_creates _ _).mono (fun load after loads => ?_) fun _ _ => trivial
  have left := folds.emits.leave
  have leftEnds := left.atEnds openedEnds
  obtain ⟨first, firstLists, begins⟩ := starts.runs
  obtain ⟨second, secondLists, performs⟩ := folds.runs
  obtain ⟨loadOp, loadCarries, -⟩ := loads.carries
  refine
    { emits := (starts.emits.trans left).trans loads.emits
      runs := ⟨first ++ (second ++ [load]), ?_, ?_⟩ }
  · have closedLists : Lists second opened (done.leaveRegion opened.mark) := secondLists
    exact Computes.Lists.append firstLists starts.emits.stack
      (Computes.Lists.append closedLists left.stack loads.lists)
  intro module fuel setting frame machine deep leads unset represents
  have leftLeads := loads.emits.leads leftEnds leads
  have openedLeads := left.leads openedEnds leftLeads
  have doneLeads : done.Leads module := by
    refine leftLeads.of_stack rfl fun point listed => ?_
    rw [left.stack] at listed
    rw [folds.emits.stack]
    exact listed
  have unsetIds : ∀ id ∈ ranges.map AxisRange.id, setting.env id = none := by
    intro id listed
    obtain ⟨range, inside, rfl⟩ := List.mem_map.mp listed
    exact unset range inside
  obtain ⟨start, next, middle, known, fits, ran, heap, agrees, ready, reached⟩ :=
    begins nodes module _ setting frame machine openedLeads.extends_ represents
  have inside : Represents nodes setting opened.enterRegion next machine.heap :=
    reached.transfer (fun found => found) rfl (.refl _ _) reached.entered (.refl _ _)
  rw [Machine.advance_append_next _ ran, Machine.advance_append, Meaning.reduce, known,
    ← bind_pure (Except.ok start >>= _)]
  change Machine.Realizes _ (overPoints (fun setting scalar => do
    let data ← setting.value body
    Meaning.accumulate kind acc.dtype data scalar) ranges setting start >>= pure) _
  refine (performs module fuel setting next machine.heap start middle deep doneLeads unsetIds
    inside ready heap fits).bind ?_
  rintro result step last - ⟨⟨further, rfl, stillAgrees⟩, lastHeap, resultFits⟩
  obtain ⟨final, loaded, finalHeap⟩ := (Accumulator.load_defines (Machine.runBlock module fuel)
    (ready.transfer (.refl _ opened.module) stillAgrees) (loadCarries.of_extends leads.extends_)
    lastHeap).apply
  rw [Step.andThen, Machine.advance_singleton, loaded]
  have entered := Frame.ne_nil_of_find? (ready.transfer (.refl _ opened.module) stillAgrees).zero
  exact .of_ok ⟨_, rfl, Frame.find?_define_self entered, resultFits, finalHeap.trans lastHeap⟩

/-- Building a reduction that is not bound yet computes it. -/
theorem build_reduces (free : context.binding? id = none) (ends : context.AtEnds)
    (rooted : context.Rooted) :
    Ensures (build (.reduce id dtype kind body (ranges.map AxisRange.expr))) context
      (fun binding after => ∃ value, binding = .value value ∧
        Reduces nodes kind dtype body ranges value context after)
      (fun _ => True) := by
  have emittedEnds : ∀ first second, ((context.emit first).emit second).AtEnds := fun _ _ => ends
  have emittedRooted : ∀ first second, ((context.emit first).emit second).Rooted :=
    fun _ _ => rooted
  rw [build_reduce, onceValue, once, ensures_bind, ensures_get, free]
  dsimp only
  rw [ensures_bind, ensures_emit, ensures_bind, ensures_map, ensures_bind, ensures_emit]
  refine (synthesize_reduces graph flat member members distinct (emittedEnds _ _)
    (emittedRooted _ _)).mono (fun value after reduces => ?_) fun _ _ => trivial
  simp only [ensures_bind, ensures_bindNode, ensures_pure]
  exact ⟨value, rfl, (reduces.of_emit.of_emit).bind id (.value value)⟩

end Whole

end BuildM

end AffineKernel
