import AffineKernel.Proofs.Semantics.Activations
import Mathlib.Data.List.Induction

/-!
# Static scopes

What a run can see at a point is what the nesting of blocks says. The blocks that
are being executed are that of the operation under execution and those around it,
up to the body of the function, each of them once (`Module.Spans`); in each of
them the operations that have ended are those that stand before the operation
under execution. A value is defined in the frame exactly if it is an argument or
a result of the current execution of the block that defines it. So nothing is
seen of an earlier iteration of a loop, of a block next to the ones around or of
one that has ended, or of the frame of a caller: none of them is among the
executions under way.

Each scope of a frame holds what its activation binds (`Activation.Fills`), and no
value is bound by two activations, for they are executions of different blocks.
Both are kept by every step from point to point (`Proceeds.stands`).
-/

set_option autoImplicit false

namespace AffineKernel

namespace Module

/-- Inside of an operation, a block is another one or around it. -/
def Spans (module : Module) (outer : OpId) (block around : BlockId) : Prop :=
  module.Encloses outer around ∧ (around = block ∨
    ∃ id op, module.op? id = some op ∧ op.parent = around ∧ module.Encloses id block)

end Module

/-! ## What a scope holds -/

namespace Activation

variable {activation : Activation} {value : Value} {datum : Datum}

/-- A scope holds what an activation binds. -/
def Fills (scope : Scope) (activation : Activation) : Prop :=
  ∀ value datum, Table.find? scope value = some datum ↔ activation.Binds value datum

/-- A block was entered. -/
theorem fills_enter (block : BlockId) (args : List Datum) (rest : List OpId) :
    Fills ⟨((List.range args.length).map (Value.arg block)).zip args⟩ ⟨block, args, [], rest⟩ := by
  intro value datum
  constructor
  · intro found
    obtain ⟨position, listed, given⟩ := Table.exists_of_find?_zip found
    simp only [List.getElem?_map, Option.map_eq_some_iff] at listed
    obtain ⟨place, ranged, rfl⟩ := listed
    obtain ⟨small, rfl⟩ := List.getElem?_eq_some_iff.mp ranged
    rw [List.getElem_range]
    exact ⟨rfl, given⟩
  · intro binds
    cases value with
    | result op position =>
        obtain ⟨bound, listed, -⟩ := binds
        cases listed
    | arg other position =>
        obtain ⟨rfl, given⟩ := binds
        have found : Frame.find? (Frame.enter [] other args) (.arg other position) = some datum :=
          Frame.find?_enter_arg given
        simpa [Frame.find?, Frame.enter] using found

end Activation

namespace Frame

/-- Binding results changes the innermost scope only, and there only the results. -/
theorem binding_cons (scope : Scope) (outer : Frame) (id : OpId) (bound : List Datum) :
    ∃ grown : Scope, Frame.binding (scope :: outer) id bound = grown :: outer ∧
      ∀ value datum, Table.find? grown value = some datum ↔
        (∃ position, value = .result id position ∧ bound[position]? = some datum) ∨
          (∀ position, value = .result id position → bound[position]? = none) ∧
            Table.find? scope value = some datum := by
  induction bound using List.reverseRecOn with
  | nil => exact ⟨scope, rfl, by simp⟩
  | append_singleton bound last ih =>
      obtain ⟨grown, same, found⟩ := ih
      refine ⟨Table.insert grown (.result id bound.length) last, ?_, fun value datum => ?_⟩
      · rw [binding_append, same]
        rfl
      · rw [Table.find?_insert]
        by_cases new : .result id bound.length = value
        · subst new
          simp only [Value.result.injEq, true_and, exists_eq_left', forall_eq', List.getElem?_concat_length,
            ↓reduceIte]
          constructor
          · exact .inl
          · rintro (given | ⟨absent, -⟩)
            · exact given
            · cases absent
        · rw [if_neg new, found]
          have old : ∀ position, value = .result id position →
              (bound ++ [last])[position]? = bound[position]? := by
            rintro position rfl
            have other : position ≠ bound.length := fun equal => new (equal ▸ rfl)
            grind
          constructor
          · rintro (⟨position, rfl, given⟩ | ⟨absent, kept⟩)
            · exact .inl ⟨position, rfl, (old position rfl).trans given⟩
            · exact .inr ⟨fun position same => (old position same).trans (absent position same), kept⟩
          · rintro (⟨position, rfl, given⟩ | ⟨absent, kept⟩)
            · exact .inl ⟨position, rfl, (old position rfl).symm.trans given⟩
            · exact .inr ⟨fun position same => (old position same).symm.trans (absent position same),
                kept⟩

end Frame

namespace Activation

variable {activation : Activation} {value : Value} {datum : Datum}

theorem binds_record {id : OpId} {bound : List Datum} {rest : List OpId} :
    (activation.record id bound rest).Binds value datum ↔
      (∃ position, value = .result id position ∧ bound[position]? = some datum) ∨
        activation.Binds value datum := by
  cases value with
  | arg block position => simp [record, Binds]
  | result op position =>
      simp only [record, Binds, List.mem_append, List.mem_singleton, Prod.mk.injEq, or_and_right,
        exists_or]
      constructor
      · rintro (old | ⟨_, ⟨rfl, rfl⟩, given⟩)
        · exact .inr old
        · exact .inl ⟨position, rfl, given⟩
      · rintro (⟨_, ⟨⟩, given⟩ | old)
        · exact .inr ⟨bound, ⟨rfl, rfl⟩, given⟩
        · exact .inl old

/-- An operation that has not ended before binds its results. -/
theorem Fills.record {scope grown : Scope} (fills : activation.Fills scope) {id : OpId}
    {bound : List Datum} (rest : List OpId) (new : id ∉ activation.done.map Prod.fst)
    (found : ∀ value datum, Table.find? grown value = some datum ↔
      (∃ position, value = .result id position ∧ bound[position]? = some datum) ∨
        (∀ position, value = .result id position → bound[position]? = none) ∧
          Table.find? scope value = some datum) :
    (activation.record id bound rest).Fills grown := by
  intro value datum
  rw [found, binds_record, fills]
  refine or_congr_right ⟨And.right, fun binds => ⟨?_, binds⟩⟩
  rintro position rfl
  obtain ⟨other, listed, -⟩ := binds
  exact absurd (List.mem_map.mpr ⟨_, listed, rfl⟩) new

end Activation

/-! ## Where a point stands -/

/-- The block of each activation is a region of the operation that the next one is executing, and the
last one is the body of the function. -/
inductive Nested (module : Module) (func : OpId) : List Activation → Prop where
  | body {activation : Activation} :
      module.region? func 0 = some activation.block → Nested module func [activation]
  | region {activation around : Activation} {outer : List Activation} {id : OpId}
      {rest : List OpId} {op : Operation} :
      around.rest = id :: rest → module.op? id = some op → op.parent = around.block →
      activation.block ∈ op.regions → Nested module func (around :: outer) →
      Nested module func (activation :: around :: outer)

/-- The operations that have ended are those before the one under execution. -/
def Activation.Placed (module : Module) (activation : Activation) : Prop :=
  ∃ found, module.block? activation.block = some found ∧
    found.ops = activation.done.map Prod.fst ++ activation.rest

/-- Where a point stands in the module, and what its frame holds. -/
structure Point.Stands (module : Module) (point : Point) : Prop where
  nested : Nested module point.func point.trail
  placed : ∀ activation ∈ point.trail, activation.Placed module
  fills : List.Forall₂ (fun scope activation => activation.Fills scope) point.frame point.trail

section Forest

variable {module : Module} (forest : module.Forest)
include forest

/-- An activation binds values that its block defines. -/
theorem Activation.Placed.home {activation : Activation} (placed : activation.Placed module)
    {value : Value} {datum : Datum} (binds : activation.Binds value datum) :
    module.home? value = some activation.block := by
  cases value with
  | arg block position => exact congrArg some binds.1
  | result op position =>
      obtain ⟨bound, listed, -⟩ := binds
      obtain ⟨found, known, ops⟩ := placed
      have member : op ∈ found.ops := by
        rw [ops]
        exact List.mem_append_left _ (List.mem_map.mpr ⟨_, listed, rfl⟩)
      obtain ⟨operation, there, parent⟩ := forest.listed known op member
      simp [Module.home?, there, parent]

/-- Inner blocks are numbered after outer ones. -/
theorem Nested.sorted {func : OpId} {trail : List Activation} (nested : Nested module func trail) :
    trail.Pairwise fun inner outer => outer.block.index < inner.block.index := by
  induction nested with
  | body entry => exact List.pairwise_singleton _ _
  | @region activation around outer id rest op current there parent member nested ih =>
      have first : around.block.index < activation.block.index :=
        parent ▸ (forest.region there _ member).1
      refine List.pairwise_cons.mpr ⟨fun other listed => ?_, ih⟩
      rcases List.mem_cons.mp listed with rfl | further
      · exact first
      · exact Nat.lt_trans ((List.pairwise_cons.mp ih).1 other further) first

omit forest in
/-- What is nested below the body of a function is inside of the function. -/
theorem Nested.encloses {func : OpId} {trail : List Activation}
    (nested : Nested module func trail) :
    ∀ activation ∈ trail, module.Encloses func activation.block := by
  induction nested with
  | @body activation entry =>
      obtain ⟨op, there, member⟩ := Option.bind_eq_some_iff.mp entry
      intro other listed
      cases List.mem_singleton.mp listed
      exact .region there (List.mem_of_getElem? member)
  | @region activation around outer id rest op current there parent member nested ih =>
      intro other listed
      rcases List.mem_cons.mp listed with rfl | further
      · exact .inner (parent ▸ ih around List.mem_cons_self) there member
      · exact ih other further

omit forest in
/-- An outer block lists an operation that encloses the inner one. -/
theorem Nested.around {func : OpId} {trail : List Activation} (nested : Nested module func trail) :
    ∀ inner outer, trail = inner :: outer → ∀ activation ∈ outer, ∃ id op,
      module.op? id = some op ∧ op.parent = activation.block ∧ module.Encloses id inner.block := by
  induction nested with
  | body entry =>
      rintro inner outer ⟨⟩ activation listed
      cases listed
  | @region activation around outer id rest op current there parent member nested ih =>
      rintro inner others ⟨⟩ other listed
      rcases List.mem_cons.mp listed with rfl | further
      · exact ⟨id, op, there, parent, .region there member⟩
      · obtain ⟨farther, fartherOp, fartherThere, same, encloses⟩ :=
          ih around outer rfl other further
        exact ⟨farther, fartherOp, fartherThere, same, .inner (parent.symm ▸ encloses) there member⟩

/-- A block that lists an operation around the inner block, and is inside of the function, is the
block of an activation. -/
theorem Nested.exists_of_around {func : OpId} {trail : List Activation}
    (nested : Nested module func trail) {id : OpId} {op : Operation}
    (known : module.op? id = some op) (inside : module.Encloses func op.parent) :
    ∀ inner outer, trail = inner :: outer → module.Encloses id inner.block →
      ∃ activation ∈ trail, activation.block = op.parent := by
  induction nested with
  | @body activation entry =>
      rintro inner outer ⟨⟩ encloses
      obtain ⟨function, there, member⟩ := Option.bind_eq_some_iff.mp entry
      have below := inside.after forest there
      rcases forest.encloses_region there (List.mem_of_getElem? member) encloses with rfl | deeper
      · obtain rfl := Option.some.inj (known.symm.trans there)
        exact absurd below (Nat.lt_irrefl _)
      · exact absurd (deeper.after forest known) (Nat.not_lt_of_lt below)
  | @region activation around outer current rest currentOp _ there parent member nested ih =>
      rintro inner others ⟨⟩ encloses
      rcases forest.encloses_region there member encloses with rfl | deeper
      · obtain rfl := Option.some.inj (known.symm.trans there)
        exact ⟨around, List.mem_cons_of_mem _ List.mem_cons_self, parent.symm⟩
      · obtain ⟨other, listed, same⟩ := ih around outer rfl (parent ▸ deeper)
        exact ⟨other, List.mem_cons_of_mem _ listed, same⟩

/-- **The executions under way** are those of the innermost block and of the blocks around it, up to
the body of the function. -/
theorem Nested.spans_iff {func : OpId} {inner : Activation} {outer : List Activation}
    (nested : Nested module func (inner :: outer)) (block : BlockId) :
    module.Spans func inner.block block ↔
      ∃ activation ∈ inner :: outer, activation.block = block := by
  constructor
  · rintro ⟨inside, rfl | ⟨id, op, known, rfl, encloses⟩⟩
    · exact ⟨inner, List.mem_cons_self, rfl⟩
    · exact nested.exists_of_around forest known inside inner outer rfl encloses
  · rintro ⟨activation, listed, rfl⟩
    refine ⟨nested.encloses activation listed, ?_⟩
    rcases List.mem_cons.mp listed with rfl | further
    · exact .inl rfl
    · exact .inr (nested.around inner outer rfl activation further)

/-- No value is bound by two activations, so the frame finds a value if and only if some activation
binds it. -/
theorem find?_eq_some_iff {func : OpId} {frame : Frame} {trail : List Activation}
    (nested : Nested module func trail) (placed : ∀ activation ∈ trail, activation.Placed module)
    (fills : List.Forall₂ (fun scope activation => activation.Fills scope) frame trail)
    (value : Value) (datum : Datum) :
    frame.find? value = some datum ↔ ∃ activation ∈ trail, activation.Binds value datum := by
  have sorted := nested.sorted forest
  clear nested
  induction fills with
  | nil => simp [Frame.find?]
  | @cons scope activation frame trail filled fills ih =>
      rw [List.pairwise_cons] at sorted
      have others : Frame.find? frame value = some datum ↔
          ∃ activation ∈ trail, activation.Binds value datum := ih (fun other listed => placed other (List.mem_cons_of_mem _ listed)) sorted.2
      have split : Frame.find? (scope :: frame) value =
          (Table.find? scope value).or (Frame.find? frame value) := by
        simp only [Frame.find?, List.findSome?_cons]
        cases Table.find? scope value <;> rfl
      rw [split, Option.or_eq_some_iff, filled, others]
      constructor
      · rintro (here | ⟨-, other, listed, binds⟩)
        · exact ⟨activation, List.mem_cons_self, here⟩
        · exact ⟨other, List.mem_cons_of_mem _ listed, binds⟩
      · rintro ⟨other, listed, binds⟩
        rcases List.mem_cons.mp listed with rfl | further
        · exact .inl binds
        · refine .inr ⟨Option.eq_none_iff_forall_ne_some.mpr fun another found => ?_, other, further,
            binds⟩
          have here := (placed activation List.mem_cons_self).home forest
            ((filled value another).mp found)
          have same := here.symm.trans ((placed other listed).home forest binds)
          have less := sorted.1 other further
          rw [Option.some.inj same] at less
          exact Nat.lt_irrefl _ less

end Forest

/-! ## From point to point -/

namespace Machine

/-- A conditional takes a branch of its own. -/
theorem mem_regions_of_branch {site : Site} {frame : Frame} {machine after : Machine}
    {body : BlockId} (chosen : site.branch frame machine = .ok (some body) after) :
    body ∈ site.op.regions := by
  obtain ⟨condition, _, -, chosen⟩ := bind_eq_ok.mp chosen
  obtain ⟨words, _, -, chosen⟩ := bind_eq_ok.mp chosen
  obtain ⟨_, _, -, chosen⟩ := bind_eq_ok.mp chosen
  obtain ⟨taken, _, -, chosen⟩ := bind_eq_ok.mp chosen
  exact List.mem_of_getElem? (EStateM.Result.ok.inj chosen).1

variable {module : Module} {point later : Point}

/-- A function is entered. -/
theorem stands_entry {func : OpId} {body : BlockId} {block : Block}
    (region : module.region? func 0 = some body) (listed : module.block? body = some block)
    (args : List Datum) (machine : Machine) (fuel : Nat) :
    (Point.entry func body block.ops args machine fuel).Stands module where
  nested := .body region
  placed activation member := by
    cases List.mem_singleton.mp member
    exact ⟨block, listed, rfl⟩
  fills := .cons (Activation.fills_enter body args block.ops) .nil

variable (assembled : module.Assembled) (standing : point.Stands module)
include assembled standing

/-- A block is entered. -/
theorem stands_enter {id : OpId} {rest : List OpId} {op : Operation} {body : BlockId}
    {block : Block} (current : point.inner.rest = id :: rest) (found : module.op? id = some op)
    (member : body ∈ op.regions) (listed : module.block? body = some block) (args : List Datum)
    (machine : Machine) (fuel : Nat) :
    (point.enter body block.ops args machine fuel).Stands module where
  nested := by
    obtain ⟨around, known, ops⟩ := standing.placed point.inner List.mem_cons_self
    obtain ⟨op', there, parent⟩ := assembled.forest.listed known id (by simp [ops, current])
    obtain rfl := Option.some.inj (found.symm.trans there)
    exact .region current found parent member standing.nested
  placed activation inside := by
    rcases List.mem_cons.mp inside with rfl | outer
    · exact ⟨block, listed, rfl⟩
    · exact standing.placed activation outer
  fills := .cons (Activation.fills_enter body args block.ops) standing.fills

/-- The operation under execution has not ended before, for its block lists it once. -/
theorem not_done {id : OpId} {rest : List OpId} (current : point.inner.rest = id :: rest) :
    id ∉ point.inner.done.map Prod.fst := by
  obtain ⟨found, known, ops⟩ := standing.placed point.inner List.mem_cons_self
  have once := assembled.listed_once known
  rw [ops, current] at once
  exact fun ended => (List.nodup_append.mp once).2.2 id ended id List.mem_cons_self rfl

/-- An operation ends. -/
theorem stands_record {id : OpId} {rest : List OpId} (current : point.inner.rest = id :: rest)
    (bound : List Datum) (machine : Machine) :
    (point.record id bound rest machine).Stands module := by
  have new := not_done assembled standing current
  obtain ⟨func, inner, outer, frame, before, fuel⟩ := point
  obtain ⟨nested, placed, fills⟩ := standing
  obtain ⟨found, known, ops⟩ := placed inner List.mem_cons_self
  refine ⟨?_, fun activation member => ?_, ?_⟩
  · cases nested with
    | body entry => exact .body entry
    | region around there parent member nested => exact .region around there parent member nested
  · rcases List.mem_cons.mp member with rfl | other
    · refine ⟨found, known, ?_⟩
      change found.ops = (inner.done ++ [(id, bound)]).map Prod.fst ++ rest
      rw [ops, show inner.rest = id :: rest from current]
      simp
    · exact placed activation (List.mem_cons_of_mem _ other)
  · cases fills with
    | @cons scope _ scopes _ filled fills =>
        obtain ⟨grown, same, holds⟩ := Frame.binding_cons scope scopes id bound
        change List.Forall₂ _ (Frame.binding (scope :: scopes) id bound)
          (inner.record id bound rest :: outer)
        rw [same]
        exact .cons (filled.record rest new holds) fills

/-- **A step** from point to point. -/
theorem Proceeds.stands (proceeds : Proceeds module point later) : later.Stands module := by
  cases proceeds with
  | next current ended => exact stands_record assembled standing current _ _
  | iteration current deep found kind first listed ranged small before =>
      exact stands_enter assembled standing current found (List.mem_of_mem_head? first) listed _ _ _
  | branch current deep found kind listed chosen =>
      exact stands_enter assembled standing current found (mem_regions_of_branch chosen) listed _ _ _
  | call current deep found kind known target region listed arity given =>
      exact stands_entry region listed _ _ _

omit standing in
/-- **A run.** -/
theorem stands_of_reaches (standing : point.Stands module)
    (reaches : Relation.ReflTransGen (Proceeds module) point later) : later.Stands module := by
  induction reaches with
  | refl => exact standing
  | tail _ proceeds ih => exact proceeds.stands assembled ih

end Machine

/-! ## Calls -/

/-- The block that defines a value is the innermost one or around it, and its current execution has
bound the value. -/
def Point.Sees (module : Module) (point : Point) (value : Value) (datum : Datum) : Prop :=
  ∃ block, module.home? value = some block ∧
    module.Spans point.func point.inner.block block ∧
    ∃ activation ∈ point.trail, activation.block = block ∧ activation.Binds value datum

/-- What a point sees is what its frame finds. -/
theorem Point.Stands.sees_iff {module : Module} {point : Point} (standing : point.Stands module)
    (forest : module.Forest) (value : Value) (datum : Datum) :
    point.frame.find? value = some datum ↔ point.Sees module value datum := by
  rw [find?_eq_some_iff forest standing.nested standing.placed standing.fills]
  constructor
  · rintro ⟨activation, listed, binds⟩
    exact ⟨activation.block, (standing.placed activation listed).home forest binds,
      (standing.nested.spans_iff forest _).mpr ⟨activation, listed, rfl⟩, activation, listed, rfl,
      binds⟩
  · rintro ⟨block, -, -, activation, listed, -, binds⟩
    exact ⟨activation, listed, binds⟩

namespace Machine

/-- The points that a call gets to, in the function that is called and in those that it calls. -/
def CallReaches (module : Module) (depth : Nat) (name : String) (args : List Buffer)
    (machine : Machine) (point : Point) : Prop :=
  ∃ func body block fuel, module.function? name = some func ∧
    module.region? func 0 = some body ∧ module.block? body = some block ∧
    args.length = block.args.length ∧ depth = fuel + 1 ∧
    Relation.ReflTransGen (Proceeds module)
      (.entry func body block.ops (handles machine.heap.size args.length)
        ⟨machine.heap ++ args.toArray, machine.log.push (.interpret name args.length)⟩ fuel) point

section Calls

variable {module : Module} {depth : Nat} {name : String} {args : List Buffer} {machine : Machine}
  {point : Point}

theorem CallReaches.stands (reaches : CallReaches module depth name args machine point)
    (assembled : module.Assembled) : point.Stands module := by
  obtain ⟨func, body, block, fuel, -, region, listed, -, -, reaches⟩ := reaches
  exact stands_of_reaches assembled (stands_entry region listed _ _ _) reaches

/-- A call fails as the run from any of its points does. -/
theorem CallReaches.fails (reaches : CallReaches module depth name args machine point)
    {error : RunError} (failed : point.Fails module error) :
    (call module depth name args machine).1.failure? = some error := by
  obtain ⟨func, body, block, fuel, named, region, listed, arity, rfl, reaches⟩ := reaches
  obtain ⟨after, failed⟩ := fails_of_reaches reaches failed
  have length : (handles machine.heap.size args.length).length = args.length := by simp [handles]
  have ran : runFunction module (runBlock module (fuel + 1)) func name
      (handles machine.heap.size args.length) ⟨machine.heap ++ args.toArray, machine.log⟩ =
        .error error after := by
    rw [runFunction_apply region listed (length.trans arity), runBlock_apply listed, length]
    exact bind_eq_error.mpr (.inl failed)
  rw [call_apply named, ran]
  rfl

/-- A call that fails as an operation does gets to an operation that fails so by itself. -/
theorem exists_failing_of_call {error : RunError} (own : error.isOwn = true)
    (result : ∀ func, error ≠ .operandKind func .ret .scalar)
    (failed : (call module depth name args machine).1.results = .error error) :
    ∃ point id rest after, CallReaches module depth name args machine point ∧
      point.inner.rest = id :: rest ∧
      runOp module still id point.frame point.machine = .error error after := by
  cases named : module.function? name with
  | none =>
      simp only [call, named] at failed
      cases failed
      cases own
  | some func =>
      rw [call_apply named] at failed
      split at failed
      · exact absurd failed (scalarResults_ne result _ _)
      · rename_i problem after ran
        cases failed
        have length : (handles machine.heap.size args.length).length = args.length := by
          simp [handles]
        obtain ⟨body, block, region, listed, arity, ran⟩ := runFunction_own own ran
        obtain ⟨fuel, block', rfl, listed', ran⟩ := runBlock_own own ran
        obtain rfl := Option.some.inj (listed.symm.trans listed')
        rw [length] at arity ran
        obtain ⟨last, id, rest, after, reaches, current, alone⟩ := exists_failing own
          (show (Point.entry func body block.ops (handles machine.heap.size args.length)
            ⟨machine.heap ++ args.toArray, machine.log.push (.interpret name args.length)⟩
            fuel).fuel = fuel from rfl) ⟨after, ran⟩
        exact ⟨last, id, rest, after, ⟨func, body, block, fuel, named, region, listed, arity, rfl,
          reaches⟩, current, alone⟩

end Calls

/-- **Visibility is static scoping.** In a module that was assembled in any way, consider a point of
a call at which an operation is under execution. The executions of blocks under way are those of its
block and of the blocks around it, up to the body of the function, each of them once; in each of
them, the operations that have ended are those before the one under execution. A look-up succeeds
exactly for the values that the current execution of their block has bound. If the operation asks
for another value, which is one of its operands, then the call fails for want of it. When the
operation ends and the block goes on, all scopes but the innermost one are as they were, and a loop
or a conditional leaves that one alone as well. And a call fails for want of a value only in this
way. -/
theorem call_sees_static_scopes {module : Module} (assembled : module.Assembled) (depth : Nat)
    (name : String) (args : List Buffer) (machine : Machine) :
    (∀ point id rest, CallReaches module depth name args machine point →
      point.inner.rest = id :: rest →
      ((∀ block, module.Spans point.func point.inner.block block ↔
          ∃ activation ∈ point.trail, activation.block = block) ∧
        (point.trail.map Activation.block).Nodup ∧
        ∀ activation ∈ point.trail, activation.Placed module) ∧
      (∀ value datum, lookup point.frame value point.machine = .ok datum point.machine ↔
        point.Sees module value datum) ∧
      (∀ value, Consults module id point.frame point.machine value →
        (∃ op, module.op? id = some op ∧ value ∈ op.operands) ∧
        ((¬ ∃ datum, point.Sees module value datum) →
          (call module depth name args machine).1.failure? = some (.undefinedValue value))) ∧
      ∀ op later after, module.op? id = some op →
        runOp module (runBlock module point.fuel) id point.frame point.machine =
          .ok (.next later) after →
        later.tail = point.frame.tail ∧
          (op.kind = .affineFor ∨ op.kind = .affineIf → later = point.frame)) ∧
    ∀ value, (call module depth name args machine).1.failure? = some (.undefinedValue value) →
      ∃ point id rest, CallReaches module depth name args machine point ∧
        point.inner.rest = id :: rest ∧ Consults module id point.frame point.machine value ∧
        ¬ ∃ datum, point.Sees module value datum := by
  have forest := assembled.forest
  refine ⟨fun point id rest reaches current => ?_, fun value failed => ?_⟩
  · have standing := reaches.stands assembled
    obtain ⟨found, known, ops⟩ := standing.placed point.inner List.mem_cons_self
    obtain ⟨op, there, -⟩ := forest.listed known id (by simp [ops, current])
    refine ⟨⟨standing.nested.spans_iff forest, ?_, standing.placed⟩, fun value datum => ?_,
      fun value consults => ⟨⟨op, there, consults.operand there⟩, fun unseen => ?_⟩,
      fun op' later after there' ended => ⟨?_, fun kind => runOp_keeps_frame there' kind ended⟩⟩
    · refine List.pairwise_map.mpr ((standing.nested.sorted forest).imp fun less same => ?_)
      rw [same] at less
      exact Nat.lt_irrefl _ less
    · rw [← standing.sees_iff forest, lookup]
      cases point.frame.find? value with
      | none =>
          constructor
          · intro ran
            cases ran
          · intro found
            cases found
      | some other =>
          constructor
          · intro ran
            exact congrArg some (EStateM.Result.ok.inj ran).1
          · intro found
            cases found
            rfl
    · have absent : point.frame.find? value = none :=
        Option.eq_none_iff_forall_ne_some.mpr fun datum found =>
          unseen ⟨datum, (standing.sees_iff forest value datum).mp found⟩
      obtain ⟨after, failed⟩ := consults
      rw [Frame.hide_eq_self absent] at failed
      exact reaches.fails (fails_of_runOp current after (runOp_of_still there failed))
    · obtain ⟨bound, rfl⟩ := runOp_binds there' ended
      obtain ⟨scope, scopes, same⟩ : ∃ scope scopes, point.frame = scope :: scopes := by
        have fills := standing.fills
        generalize point.frame = frame at fills
        cases fills
        exact ⟨_, _, rfl⟩
      obtain ⟨grown, grows, -⟩ := Frame.binding_cons scope scopes id bound
      rw [same, grows]
      rfl
  · obtain ⟨point, id, rest, after, reaches, current, alone⟩ :=
      exists_failing_of_call rfl (by simp) (Reply.results_eq_error failed)
    obtain ⟨consults, absent⟩ := consults_of_still alone
    refine ⟨point, id, rest, reaches, current, consults, ?_⟩
    rintro ⟨datum, sees⟩
    rw [← (reaches.stands assembled).sees_iff forest, absent] at sees
    cases sees

/-! ## An instance -/

/-- A function that stores, after a loop, what the body of the loop has loaded. -/
def leak : Module :=
  let access (map : AffineMap) : List (String × Attribute) := [("map", .affineMap map)]
  let drafts : List (OpDraft × BlockId) := [
    ({ kind := .func, attributes := [("sym_name", .str "leak")],
       regions := [[.memref [4] .int32]] }, ⟨0⟩),
    ({ kind := .affineFor,
       attributes := [("lower_bound", .affineMap (.constant 0)),
        ("upper_bound", .affineMap (.constant 4)), ("step", .index 1)],
       regions := [[.scalar .index]] }, ⟨1⟩),
    ({ kind := .load, operands := [.arg ⟨1⟩ 0, .arg ⟨2⟩ 0], results := [.scalar .int32],
       attributes := access (.identity 1) }, ⟨2⟩),
    ({ kind := .yield }, ⟨2⟩),
    ({ kind := .store, operands := [.result ⟨2⟩ 0, .arg ⟨1⟩ 0],
       attributes := access (.constant 0) }, ⟨1⟩),
    ({ kind := .ret }, ⟨1⟩)]
  drafts.foldl (fun module draft => (module.create draft.1 (.atEnd draft.2)).2) .empty

theorem leak_assembled : leak.Assembled :=
  .create _ (.create _ (.create _ (.create _ (.create _ (.create _ .empty rfl) rfl) rfl) rfl)
    rfl) rfl

/-- What was loaded in the loop is not seen after it. -/
theorem leak_sees_static_scopes :
    (call leak 3 "leak" [⟨[4], .int32, #[.int 1, .int 2, .int 3, .int 4]⟩] .fresh).1.failure? =
        some (.undefinedValue (.result ⟨2⟩ 0)) ∧
      ∃ point id rest, CallReaches leak 3 "leak"
          [⟨[4], .int32, #[.int 1, .int 2, .int 3, .int 4]⟩] .fresh point ∧
        point.inner.rest = id :: rest ∧
        Consults leak id point.frame point.machine (.result ⟨2⟩ 0) ∧
        ¬ ∃ datum, point.Sees leak (.result ⟨2⟩ 0) datum := by
  have failed : (call leak 3 "leak" [⟨[4], .int32, #[.int 1, .int 2, .int 3, .int 4]⟩]
      .fresh).1.failure? = some (.undefinedValue (.result ⟨2⟩ 0)) := by rfl
  exact ⟨failed, (call_sees_static_scopes leak_assembled 3 "leak" _ .fresh).2 _ failed⟩

end Machine

end AffineKernel
