import AffineKernel.Proofs.IR.LoopBands
import AffineKernel.Proofs.IR.Terminators
import AffineKernel.Proofs.Simulation.Reductions

/-!
# The band of a reduction

A reduction becomes a nest of loops, one for each axis. While a loop of the nest
is open, operations go into its body, which is a new block; so its block receives
the loop, and the body receives what is nested in it and is ended then. In the
innermost body the reduced expression is built, which may add any number of
operations and of loops. But the element of the accumulator is loaded there and
combined, and with two operations a body is no perfect nest any more.

`Module.Sweeps` says of listed operations that they are such a nest, and
`Module.Sweeps.band` that the band of a nest has the loops of the nest and no
others. `BuildM.nest_sweeps` is the induction on the axes. Before the nest and
after it, a reduction puts no loops where the nest is
(`BuildM.spreads_creations`).
-/

set_option autoImplicit false

namespace AffineKernel

namespace Module

/-! ## Nests -/

/-- A loop with a name, whose body lists some operations and the one that ends it. -/
structure Repeats (module : Module) (id : OpId) (name : String) (body : BlockId)
    (inside : List OpId) : Prop where
  loop : module.OfKind .affineFor id
  name : (module.loopInfo id).name = some name
  region : module.region? id 0 = some body
  listed : ∃ found ending, module.block? body = some found ∧ found.ops = inside ++ [ending] ∧
    module.isTerminator ending = true

/-- Listed operations are loops with names, each one around the next, around a body with at least
two operations that end no block. What belongs to the nest is numbered from `ops` and from `blocks`
on. -/
inductive Sweeps (module : Module) : Nat → Nat → List String → List OpId → Prop where
  | work {ops blocks : Nat} {listed : List OpId} {first second : OpId}
      (two : [first, second].Sublist listed) (left : module.Inner first)
      (right : module.Inner second) : Sweeps module ops blocks [] listed
  | loop {ops blocks : Nat} {id : OpId} {name : String} {body : BlockId} {inside : List OpId}
      {names : List String} (late : ops ≤ id.index) (new : blocks ≤ body.index)
      (repeats : module.Repeats id name body inside)
      (nest : Sweeps module (id.index + 1) (body.index + 1) names inside) :
      Sweeps module ops blocks (name :: names) [id]

variable {module before after : Module} {ops blocks : Nat} {names : List String}
  {listed inside : List OpId} {id : OpId} {name : String} {body : BlockId}

/-! ### Later -/

theorem Inner.of_retains (inner : before.Inner id) (retains : before.Retains after) :
    after.Inner id := by
  obtain ⟨op, there, plain⟩ := inner
  exact ⟨op, retains.op? there, plain⟩

theorem Inner.not_terminator (inner : module.Inner id) : module.isTerminator id = false := by
  obtain ⟨op, there, plain⟩ := inner
  simp [isTerminator, there, plain]

/-- A loop stays a loop with the same body, as long as the body receives nothing. -/
theorem Repeats.transfer (repeats : before.Repeats id name body inside)
    (retains : before.Retains after)
    (kept : ∀ {found}, before.block? body = some found → after.block? body = some found) :
    after.Repeats id name body inside := by
  obtain ⟨op, there, kind⟩ := repeats.loop
  have later := retains.op? there
  obtain ⟨found, ending, known, split, ends⟩ := repeats.listed
  obtain ⟨last, lastThere, lastEnds⟩ := (Option.any_eq_true _ _).mp ends
  refine
    { loop := ⟨op, later, kind⟩
      name := ?_
      region := ?_
      listed := ⟨found, ending, kept known, split, ?_⟩ }
  · have named := repeats.name
    rw [loopInfo, there] at named
    rw [loopInfo, later]
    exact named
  · have first := repeats.region
    rw [region?, there] at first
    rw [region?, later]
    exact first
  · exact (Option.any_eq_true _ _).mpr ⟨last, retains.op? lastThere, lastEnds⟩

/-- A nest stays a nest, as long as its blocks receive nothing. -/
theorem Sweeps.transfer (sweeps : before.Sweeps ops blocks names listed)
    (retains : before.Retains after)
    (kept : ∀ {block found}, blocks ≤ block.index → before.block? block = some found →
      after.block? block = some found) : after.Sweeps ops blocks names listed := by
  induction sweeps with
  | work two left right => exact .work two (left.of_retains retains) (right.of_retains retains)
  | loop late new repeats nest ih =>
      refine .loop late new (repeats.transfer retains (kept new)) (ih fun inner known => ?_)
      exact kept (Nat.le_trans new (Nat.le_of_succ_le inner)) known

theorem Sweeps.mono {lessOps lessBlocks : Nat} (sweeps : module.Sweeps ops blocks names listed)
    (fewerOps : lessOps ≤ ops) (fewerBlocks : lessBlocks ≤ blocks) :
    module.Sweeps lessOps lessBlocks names listed := by
  cases sweeps with
  | work two left right => exact .work two left right
  | loop late new repeats nest =>
      exact .loop (Nat.le_trans fewerOps late) (Nat.le_trans fewerBlocks new) repeats nest

/-! ### The band -/

/-- A body with two operations that end no block is no perfect nest. -/
theorem Repeats.innerLoop?_eq_none (repeats : module.Repeats id name body inside)
    (work : module.Sweeps ops blocks [] inside) : module.innerLoop? id = none := by
  obtain ⟨found, ending, known, split, -⟩ := repeats.listed
  cases work with
  | @work _ _ _ first second two left right =>
  have both : [first, second].Sublist (found.ops.filter fun id => !module.isTerminator id) := by
    have kept := (two.trans (List.sublist_append_left inside [ending])).filter
      fun id => !module.isTerminator id
    rw [← split] at kept
    simpa [left.not_terminator, right.not_terminator] using kept
  have several := both.length_le
  simp only [innerLoop?, repeats.region, known, Option.bind_eq_bind, Option.bind_some, soleLoop?]
  split
  · next one =>
    rw [one] at several
    exact absurd several (by simp)
  · rfl

/-- A body with one loop is a perfect nest. -/
theorem Repeats.innerLoop?_eq_some {inner : OpId} (repeats : module.Repeats id name body [inner])
    (loop : module.OfKind .affineFor inner) : module.innerLoop? id = some inner := by
  obtain ⟨found, ending, known, split, ends⟩ := repeats.listed
  have sole : module.SoleLoop found inner := ⟨loop, [], [ending], split, by simpa using ends⟩
  exact innerLoop?_eq_some_iff.mpr ⟨body, found, repeats.region, known, sole⟩

/-- The band of a nest has just the loops of the nest. -/
theorem Sweeps.band (sweeps : module.Sweeps ops blocks (name :: names) listed) :
    ∃ id, listed = [id] ∧ ops ≤ id.index ∧ module.OfKind .affineFor id ∧
      ∀ fuel, module.size ≤ id.index + fuel →
        (module.bandFrom fuel id).map (fun id => (module.loopInfo id).name) =
          (name :: names).map some := by
  induction names generalizing ops blocks name listed with
  | nil =>
      cases sweeps with
      | @loop _ _ id _ _ _ _ late _ repeats nest =>
      refine ⟨id, rfl, late, repeats.loop, fun fuel _ => ?_⟩
      have alone : module.bandFrom fuel id = [id] := by
        cases fuel with
        | zero => rfl
        | succ fuel =>
            unfold bandFrom
            rw [repeats.innerLoop?_eq_none nest]
      simp [alone, repeats.name]
  | cons next names ih =>
      cases sweeps with
      | @loop _ _ id _ _ _ _ late _ repeats nest =>
      obtain ⟨inner, rfl, after, loop, further⟩ := ih nest
      refine ⟨id, rfl, late, repeats.loop, fun fuel enough => ?_⟩
      obtain ⟨op, there, -⟩ := repeats.loop
      have small : id.index < module.size := index_lt_of_op? there
      obtain ⟨fuel, rfl⟩ : ∃ less, fuel = less + 1 := ⟨fuel - 1, by omega⟩
      unfold bandFrom
      rw [repeats.innerLoop?_eq_some loop]
      simp only [List.map_cons, repeats.name, List.cons.injEq, true_and]
      exact further fuel (by omega)

/-- A band is known by its first loop. -/
theorem eq_band_of_head {func loop : OpId} {band : List LoopInfo}
    (member : band ∈ module.loopNests func) (head : band.head?.map LoopInfo.op = some loop) :
    band = (module.bandFrom module.size loop).map module.loopInfo := by
  unfold loopNests at member
  split at member
  · cases member
  · obtain ⟨outer, -, rfl⟩ := List.mem_map.mp member
    rw [List.head?_map, head?_bandFrom] at head
    rw [← show outer = loop from Option.some.inj head]

theorem band_mem_loopNests {func loop : OpId} {region : BlockId} {found : Block}
    (first : module.region? func 0 = some region) (known : module.block? region = some found)
    (listed : loop ∈ found.ops) (isLoop : module.isLoop loop = true) :
    (module.bandFrom module.size loop).map module.loopInfo ∈ module.loopNests func := by
  rw [loopNests_eq first known]
  exact List.mem_map.mpr ⟨loop, List.mem_filter.mpr ⟨listed, isLoop⟩, rfl⟩

/-! ### Listed operations -/

/-- Operations that are listed one after the other. -/
theorem foldl_place_none (ops more : List OpId) :
    more.foldl (fun listed id => place id none listed) ops = ops ++ more := by
  induction more generalizing ops with
  | nil => simp
  | cons id more ih =>
      rw [List.foldl_cons, place_none, ih, List.append_assoc, List.singleton_append]

/-- Wherever operations are listed, they are listed besides those that were there. -/
theorem foldl_place_perm (before : Option OpId) (ops more : List OpId) :
    (more.foldl (fun listed id => place id before listed) ops).Perm (ops ++ more) := by
  induction more generalizing ops with
  | nil => simp
  | cons id more ih =>
      have placed := (place_perm id before ops).append_right more
      rw [List.foldl_cons]
      exact (ih _).trans (placed.trans List.perm_middle.symm)

namespace Fills

variable {point : Option InsertionPoint} {found : Block} {block : BlockId}

/-- A block without the insertion point stays as it is. -/
theorem block?_of_ne (fills : Fills point before after) (known : before.block? block = some found)
    (other : point.map InsertionPoint.block ≠ some block) : after.block? block = some found := by
  have later := fills.listed known
  rw [fills.quiet (index_lt_of_block? known) other] at later
  exact later

/-- At the end of a block, operations are listed behind those that were there. -/
theorem block?_atEnd (fills : Fills (some (.atEnd block)) before after)
    (known : before.block? block = some found) :
    after.block? block = some { found with ops := found.ops ++ before.added after block } := by
  rw [fills.listed known]
  simp only [Option.bind_some, InsertionPoint.atEnd, foldl_place_none]

end Fills

end Module

/-! ## What is put at the insertion point -/

namespace Context

/-- Just these operations are put where the insertion point is. -/
structure Puts (ops : List OpId) (before after : Context) : Prop where
  emits : Emits [] before after
  listed : ∀ point, before.stack.head? = some point →
    before.module.added after.module point.block = ops

variable {ops more : List OpId} {before middle after : Context}

theorem Puts.trans (first : Puts ops before middle) (second : Puts more middle after) :
    Puts (ops ++ more) before after where
  emits := first.emits.trans second.emits
  listed point head := by
    have still : middle.stack.head? = some point := by
      rw [first.emits.stack]
      exact head
    rw [Module.added_append first.emits.fills.retains second.emits.fills.retains,
      first.listed point head, second.listed point still]

theorem Emits.puts (emits : Emits [] before after) : ∃ ops, Puts ops before after := by
  cases head : before.stack.head? with
  | none => exact ⟨[], emits, fun point known => by rw [head] at known; cases known⟩
  | some point =>
      refine ⟨before.module.added after.module point.block, emits, fun other known => ?_⟩
      rw [head] at known
      cases known
      rfl

/-- Operations are put where the insertion point is, and none of them is a loop. -/
def Spreads (before after : Context) : Prop :=
  ∃ ops, Puts ops before after ∧
    ∀ id ∈ ops, ∃ op, after.module.op? id = some op ∧ op.kind ≠ .affineFor

theorem Spreads.chains : BuildM.Chains Spreads where
  refl context := ⟨[], ⟨.refl context, fun _ _ => Module.added_self _ _⟩, by simp⟩
  trans := by
    rintro first second third ⟨ops, puts, plain⟩ ⟨more, further, morePlain⟩
    refine ⟨ops ++ more, puts.trans further, fun id member => ?_⟩
    rcases List.mem_append.mp member with old | new
    · obtain ⟨op, there, other⟩ := plain id old
      exact ⟨op, further.emits.fills.retains.op? there, other⟩
    · exact morePlain id new

end Context

namespace BuildM

open Context

variable {context : Context}

theorem create_puts (draft : OpDraft) (context : Context) :
    Ensures (create draft) context
      (fun id after => Puts [id] context after ∧ ∃ op, after.module.Carries id op draft)
      (fun _ => True) := by
  have listed : Ensures (create draft) context
      (fun id after => ∀ point, context.stack.head? = some point →
        context.module.added after.module point.block = [id]) (fun _ => True) := by
    refine ensures_create (fun point rest stack other head => ?_) fun _ => trivial
    rw [stack] at head
    cases head
    exact Module.added_create _ _ _
  refine ((create_creates draft context).and listed).mono ?_ fun _ _ => trivial
  rintro id after ⟨creates, listed⟩
  obtain ⟨op, carries, -⟩ := creates.carries
  exact ⟨⟨creates.emits, listed⟩, op, carries⟩

/-- Besides its nest, a reduction puts no loop where the insertion point is. -/
theorem spreads_creations : Creations Spreads fun _ _ => True where
  toCourses :=
    { Spreads.chains with
      halt := fun _ => trivial
      late := fun _ _ => trivial }
  log context event := ⟨[], ⟨.emit context event, fun _ _ => Module.added_self _ _⟩, by simp⟩
  create {draft} plain _ context := by
    refine (create_puts draft context).mono ?_ fun _ _ => trivial
    rintro id after ⟨puts, op, carries⟩
    refine ⟨[id], puts, List.forall_mem_singleton.mpr ⟨op, carries.found, fun loop => ?_⟩⟩
    rw [← carries.kind, loop] at plain
    cases plain

/-! ## The nest -/

/-- The innermost body has two operations that end no block, whatever is built for the reduced
expression. -/
theorem step_sweeps (acc : Accumulator) (kind : ReduceKind) (dtype : DType) (body : Expr)
    (ops blocks : Nat) :
    Ensures (acc.step kind dtype body) context
      (fun _ after => ∃ listed, Puts listed context after ∧
        after.module.Sweeps ops blocks [] listed)
      (fun _ => True) := by
  rw [Accumulator.step, ensures_bind]
  refine ensures_valueType (fun actual _ => ?_) trivial
  dsimp only
  split
  · trivial
  rw [ensures_bind]
  refine (build_emits body context).mono (fun binding built emits => ?_) fun _ _ => trivial
  rw [ensures_bind]
  refine (emits_steps.needValue body.name binding built).mono (fun data middle needed => ?_)
    fun _ _ => trivial
  obtain ⟨before, puts⟩ := (emits.trans needed).puts
  simp only [Accumulator.load, Accumulator.store, createValue, ensures_bind, ensures_pure]
  refine (create_puts _ middle).mono ?_ fun _ _ => trivial
  rintro load loaded ⟨loads, loadOp, loadCarries⟩
  refine (create_puts _ loaded).mono ?_ fun _ _ => trivial
  rintro combine combined ⟨combines, combineOp, combineCarries⟩
  refine (create_puts _ combined).mono ?_ fun _ _ => trivial
  rintro store after ⟨stores, -⟩
  refine ⟨_, ((puts.trans loads).trans combines).trans stores, ?_⟩
  have plain : (kind.combine dtype).isTerminator = false :=
    OpKind.isTerminator_of_isPlain (by rw [ReduceKind.combine_signature]; rfl)
  have loadInner : loaded.module.Inner load := ⟨loadOp, loadCarries.found, by
    rw [loadCarries.kind]
    rfl⟩
  have combineInner : combined.module.Inner combine := ⟨combineOp, combineCarries.found, by
    rw [combineCarries.kind]
    exact plain⟩
  have two : [load, combine].Sublist (before ++ [load] ++ [combine] ++ [store]) := by
    simp only [List.append_assoc, List.singleton_append]
    exact (((List.nil_sublist [store]).cons_cons combine).cons_cons load).trans
      (List.sublist_append_right before _)
  exact .work two (loadInner.of_retains (combines.emits.trans stores.emits).fills.retains)
    (combineInner.of_retains stores.emits.fills.retains)

/-- A loop is put where the insertion point is. -/
theorem emitLoop_puts (lower upper : LoopBound) (spec : LoopSpec) (context : Context) :
    Ensures (emitLoop lower upper spec) context
      (fun header after => Puts [header.op] context after) (fun _ => True) := by
  simp only [emitLoop, createRegion, ensures_bind, ensures_get, ensures_emit, ensures_pure]
  refine (create_puts _ context).mono ?_ fun _ _ => trivial
  rintro id after ⟨puts, -⟩
  exact ⟨puts.emits.trans (.emit after _), puts.listed⟩

section Loop

variable {lower upper : LoopBound} {spec : LoopSpec} {name : String} {id : OpId} {body : BlockId}
  {created inside done last : Context} {listed : List OpId} {yield : OpId}
  (opens : Unfolds (loopDraft lower upper spec) [.scalar .index] id body context created)
  (fills : Puts listed inside done) (ends : Puts [yield] done last)
  (entered : inside.module = created.module)
  (current : inside.stack.head? = some (.atEnd body))
include opens fills ends entered current

/-- What is put into the body of a loop, and the operation that ends it, make up the loop. -/
theorem repeats_of_puts (named : spec.name = some name)
    (yields : ∃ op, last.module.Carries yield op { kind := .yield }) :
    last.module.Repeats id name body listed := by
  obtain ⟨op, carries, regions⟩ := opens.carries
  obtain ⟨yieldOp, yieldCarries⟩ := yields
  have whole := fills.trans ends
  have retains : created.module.Retains last.module := entered ▸ whole.emits.fills.retains
  have found := retains.op? carries.found
  have filled := whole.emits.fills
  rw [current, entered] at filled
  have known := filled.block?_atEnd opens.listed
  have added := whole.listed _ current
  rw [entered] at added
  refine
    { loop := ⟨op, found, carries.kind⟩
      name := ?_
      region := ?_
      listed := ⟨_, yield, known, ?_, ?_⟩ }
  · have labelled :
        (loopDraft lower upper spec).attributes.lookup "loop_name" = some (.str name) := by
      rw [loopDraft, loopAttributes, named]
      rfl
    rw [Module.loopInfo, found, Option.bind_some, Operation.attr?, carries.attributes, labelled]
    rfl
  · simp [Module.region?, found, regions]
  · simpa [InsertionPoint.atEnd] using added
  · simp [Module.isTerminator, yieldCarries.found, yieldCarries.kind, OpKind.isTerminator]

/-- The block around a loop receives the loop, and nothing of what is put into its body. -/
theorem added_of_puts (puts : Puts [id] context created) {point : InsertionPoint}
    (head : context.stack.head? = some point)
    (there : point.block.index < context.module.blocks.size) :
    context.module.added last.module point.block = [id] := by
  have filled := (fills.trans ends).emits.fills
  rw [current, entered] at filled
  have quiet : created.module.added last.module point.block = [] := by
    refine filled.quiet (Nat.lt_of_lt_of_le there puts.emits.blocks_le) fun same => ?_
    have new := opens.size_le
    have bodyIs : body = point.block := Option.some.inj same
    rw [bodyIs] at new
    exact Nat.lt_irrefl _ (Nat.lt_of_lt_of_le there new)
  rw [Module.added_append puts.emits.fills.retains filled.retains, puts.listed point head, quiet]
  rfl

/-- A loop around a nest is a nest. -/
theorem sweeps_of_puts {names : List String} (named : spec.name = some name)
    (yields : ∃ op, last.module.Carries yield op { kind := .yield })
    (sweeps : done.module.Sweeps inside.module.size inside.module.blocks.size names listed) :
    last.module.Sweeps context.module.size context.module.blocks.size (name :: names) [id] := by
  obtain ⟨op, carries, -⟩ := opens.carries
  have bodyIs : body.index < inside.module.blocks.size := by
    rw [entered]
    exact Module.index_lt_of_block? opens.listed
  have opIs : id.index < inside.module.size := by
    rw [entered]
    exact Module.index_lt_of_op? carries.found
  have late : context.module.size ≤ id.index := by
    rw [opens.creates.new]
    exact Nat.le_refl _
  refine .loop late opens.size_le (repeats_of_puts opens fills ends entered current named yields) ?_
  -- The loop is ended behind the nest, and this is the only thing that its body still receives.
  refine (sweeps.mono opIs bodyIs).transfer ends.emits.fills.retains
    fun {block found} inner known => ?_
  refine ends.emits.fills.block?_of_ne known fun same => ?_
  rw [fills.emits.stack, List.nil_append, current] at same
  obtain rfl : body = block := Option.some.inj same
  exact Nat.lt_irrefl _ inner

end Loop

/-- The loops of a nest are put one into the other, and the outermost one where the insertion point
is. -/
theorem nest_sweeps (acc : Accumulator) (kind : ReduceKind) (dtype : DType) (body : Expr)
    (ranges : List AxisRange)
    (there : ∀ {block}, context.Receives block → block.index < context.module.blocks.size) :
    Ensures (nest ranges (acc.step kind dtype body)) context
      (fun _ after => ∃ listed, Puts listed context after ∧
        after.module.Sweeps context.module.size context.module.blocks.size
          (ranges.map AxisRange.name) listed)
      (fun _ => True) := by
  induction ranges generalizing context with
  | nil => exact step_sweeps acc kind dtype body _ _
  | cons range rest ih =>
      rw [nest, ensures_bind]
      refine ((emitLoop_opened _ _ _ there).and (emitLoop_puts _ _ _ context)).mono ?_
        fun _ _ => trivial
      rintro header created ⟨opens, puts⟩
      simp only [ensures_bind, ensures_bindNode, ensures_savePoint]
      have bound := puts.emits.trans (.bind created range.id (.value header.counter))
      have pushed := bound.push opens.size_le
      refine (ih fun receives => ?_).mono ?_ fun _ _ => trivial
      · cases receives
        exact Module.index_lt_of_block? opens.listed
      rintro - done ⟨inside, fills, sweeps⟩
      simp only [emitYield, ensures_bind, ensures_pure]
      refine (create_puts _ done).mono ?_ fun _ _ => trivial
      rintro yield last ⟨ends, yields⟩
      have whole := (pushed.trans fills.emits).trans ends.emits
      have listed : ∀ point, context.stack.head? = some point →
          context.module.added last.module point.block = [header.op] := fun point head =>
        added_of_puts opens fills ends rfl rfl puts head (there (by rw [Receives, head]; rfl))
      refine ensures_restorePoint whole.stack
        ⟨[header.op], ⟨whole.pop.trans (.emit _ _), listed⟩, ?_⟩
      exact sweeps_of_puts opens fills ends rfl rfl rfl yields sweeps

/-! ## The whole reduction -/

section Whole

variable {id : NodeId} {dtype : DType} {kind : ReduceKind} {body : Expr} {ranges : List AxisRange}

/-- A reduction puts its nest where the insertion point is, between operations that are no loops. -/
theorem build_reduce_sweeps (free : context.binding? id = none)
    (there : ∀ {block}, context.Receives block → block.index < context.module.blocks.size) :
    Ensures (build (.reduce id dtype kind body (ranges.map AxisRange.expr))) context
      (fun _ after => ∃ front listed back, Puts (front ++ (listed ++ back)) context after ∧
        (∀ id ∈ front ++ back, after.module.isLoop id = false) ∧
        after.module.Sweeps context.module.size context.module.blocks.size
          (ranges.map AxisRange.name) listed)
      (fun _ => True) := by
  rw [build_reduce, onceValue, once, ensures_bind, ensures_get, free]
  dsimp only
  simp only [ensures_bind, ensures_emit, ensures_map, ensures_bindNode, ensures_pure]
  refine (spreads_creations.openAccumulator kind dtype _).mono ?_ fun _ _ => trivial
  rintro acc opened ⟨front, begins, frontPlain⟩
  have starts : Puts front context opened :=
    ⟨((Emits.emit context _).trans (.emit _ _)).trans begins.emits, begins.listed⟩
  rw [ensures_inRegion, reduceNest_ranges]
  have openedThere : ∀ {block}, opened.enterRegion.Receives block →
      block.index < opened.enterRegion.module.blocks.size := fun receives =>
    Nat.lt_of_lt_of_le (there (by
      rwa [Receives, Context.enterRegion, starts.emits.stack] at receives)) starts.emits.blocks_le
  refine (nest_sweeps acc kind dtype body ranges openedThere).mono ?_ fun _ _ => trivial
  rintro - done ⟨listed, nested, sweeps⟩
  have leaves : Puts listed opened (done.leaveRegion opened.mark) :=
    ⟨nested.emits.leave, nested.listed⟩
  refine (spreads_creations.accumulatorLoad acc _).mono ?_ fun _ _ => trivial
  rintro value after ⟨back, loads, backPlain⟩
  have whole := starts.trans (leaves.trans loads)
  have bound : Puts (front ++ (listed ++ back)) context (after.bind id (.value value)) :=
    ⟨whole.emits.trans (.bind after _ _), whole.listed⟩
  refine ⟨front, listed, back, bound, fun other member => ?_, ?_⟩
  · obtain ⟨op, found, plain⟩ : ∃ op, after.module.op? other = some op ∧ op.kind ≠ .affineFor := by
      rcases List.mem_append.mp member with early | late
      · obtain ⟨op, found, plain⟩ := frontPlain other early
        exact ⟨op, (leaves.trans loads).emits.fills.retains.op? found, plain⟩
      · exact backPlain other late
    change after.module.isLoop other = false
    simp [Module.isLoop, found, plain]
  · -- The load stands where the nest does, and not in one of its blocks.
    have nested : done.module.Sweeps context.module.size context.module.blocks.size _ listed :=
      sweeps.mono starts.emits.fills.retains.size_le starts.emits.blocks_le
    refine nested.transfer loads.emits.fills.retains fun {block found} new known => ?_
    refine loads.emits.fills.block?_of_ne known fun same => ?_
    rw [leaves.emits.stack, starts.emits.stack] at same
    exact Nat.lt_irrefl _ (Nat.lt_of_lt_of_le (there same) new)

/-- If a reduction over axes with literal bounds is built where the first region of an operation is
filled, then the block lists new operations besides those that it listed, just one of them is a
loop, and the band of this loop has the names of the axes, in their order. -/
theorem reduction_is_band {after : Context} {binding : Binding} {point : InsertionPoint}
    {rest : List InsertionPoint} {func : OpId} {found : Block}
    (stack : context.stack = point :: rest)
    (region : context.module.region? func 0 = some point.block)
    (known : context.module.block? point.block = some found)
    (free : context.binding? id = none) (several : ranges ≠ [])
    (built : build (.reduce id dtype kind body (ranges.map AxisRange.expr)) context =
      .ok binding after) :
    ∃ new grown loop, after.module.block? point.block = some grown ∧
      grown.ops.Perm (found.ops ++ new) ∧ (∀ id ∈ new, context.module.size ≤ id.index) ∧
      new.filter after.module.isLoop = [loop] ∧
      (∃ band ∈ after.module.loopNests func, band.head?.map LoopInfo.op = some loop) ∧
      ∀ band ∈ after.module.loopNests func, band.head?.map LoopInfo.op = some loop →
        band.map LoopInfo.name = ranges.map fun range => some range.name := by
  have head : context.stack.head? = some point := by rw [stack]; rfl
  have there : ∀ {block}, context.Receives block → block.index < context.module.blocks.size := by
    intro block receives
    rw [Receives, head] at receives
    cases receives
    exact Module.index_lt_of_block? known
  obtain ⟨front, listed, back, puts, plain, sweeps⟩ :=
    (build_reduce_sweeps free there).of_ok built
  obtain ⟨range, others, rfl⟩ := List.exists_cons_of_ne_nil several
  obtain ⟨loop, rfl, late, isLoop, band⟩ := sweeps.band
  have loops : after.module.isLoop loop = true := Module.isLoop_iff.mpr isLoop
  have filled := puts.emits.fills
  rw [head] at filled
  have grown := filled.listed known
  rw [puts.listed point head] at grown
  have permuted := Module.foldl_place_perm point.before found.ops (front ++ ([loop] ++ back))
  have noFront : front.filter after.module.isLoop = [] :=
    List.filter_eq_nil_iff.mpr fun id member => by simp [plain id (List.mem_append_left _ member)]
  have noBack : back.filter after.module.isLoop = [] :=
    List.filter_eq_nil_iff.mpr fun id member => by simp [plain id (List.mem_append_right _ member)]
  have first : after.module.region? func 0 = some point.block := by
    obtain ⟨op, opThere, position⟩ := Option.bind_eq_some_iff.mp region
    exact Option.bind_eq_some_iff.mpr ⟨op, puts.emits.fills.retains.op? opThere, position⟩
  have inside : loop ∈ found.ops ++ (front ++ ([loop] ++ back)) := by simp
  refine ⟨_, _, loop, grown, permuted, fun id member => ?_, ?_,
    ⟨_, Module.band_mem_loopNests first grown (permuted.mem_iff.mpr inside) loops,
      by rw [List.head?_map, Module.head?_bandFrom]; rfl⟩, fun info member begins => ?_⟩
  · rw [← puts.listed point head] at member
    exact Module.index_le_of_mem_added member
  · rw [List.filter_append, List.filter_append, noFront, noBack, List.filter_cons_of_pos loops]
    rfl
  · rw [Module.eq_band_of_head member begins, List.map_map]
    exact (band _ (Nat.le_add_left _ _)).trans (by simp)

end Whole

/-- In the body of a function. -/
def functionBody : Context :=
  let module := (Module.empty.create { kind := .func, regions := [[]] } (.atEnd Module.body)).2
  (Context.start .deferred module #[]).savePoint (.atEnd ⟨1⟩)

/-- A sum over one axis. -/
def rowSum : Expr :=
  .reduce 2 .index .sum (.constant 0 .index (.int 3)) [.axis 1 "k" (.const 0) (.const 4)]

/-- Two axes over which the sum over a third one is summed. -/
def planeRanges : List AxisRange := [⟨3, "i", 0, 2⟩, ⟨4, "j", 0, 5⟩]

/-- A sum of sums is one band of two loops, though the innermost of them has a further loop in its
body. -/
theorem sum_of_sums_is_band :
    ∃ binding after,
      build (.reduce 5 .index .sum rowSum (planeRanges.map AxisRange.expr)) functionBody =
        .ok binding after ∧
      ∃ new grown loop, after.module.block? ⟨1⟩ = some grown ∧ grown.ops.Perm ([] ++ new) ∧
        (∀ id ∈ new, 1 ≤ id.index) ∧ new.filter after.module.isLoop = [loop] ∧
        (∃ band ∈ after.module.loopNests ⟨0⟩, band.head?.map LoopInfo.op = some loop) ∧
        ∀ band ∈ after.module.loopNests ⟨0⟩, band.head?.map LoopInfo.op = some loop →
          band.map LoopInfo.name = [some "i", some "j"] := by
  have succeeds : (match build (.reduce 5 .index .sum rowSum (planeRanges.map AxisRange.expr))
      functionBody with | .ok _ _ => true | .error _ _ => false) = true := by decide +kernel
  cases outcome : build (.reduce 5 .index .sum rowSum (planeRanges.map AxisRange.expr))
    functionBody with
  | error error after => simp [outcome] at succeeds
  | ok binding after =>
      exact ⟨binding, after, rfl, @reduction_is_band functionBody 5 .index .sum rowSum planeRanges
        after binding (.atEnd ⟨1⟩) [.atEnd Module.body] ⟨0⟩ ⟨[], [], some ⟨0⟩⟩ rfl rfl rfl rfl
        (by decide) outcome⟩

end BuildM

end AffineKernel
