import AffineKernel.Build.Control
import AffineKernel.Proofs.Build.Access
import AffineKernel.Proofs.Build.Frame
import AffineKernel.Proofs.Build.Pool
import AffineKernel.Proofs.IR.Dominance
import AffineKernel.Proofs.IR.Nesting
import AffineKernel.Proofs.IR.Signature

/-!
# Building keeps modules well-typed

A context *upholds* a pool when every operation of its module obeys its
signature, every node that is bound to a value is bound to a scalar of its own
type, and every tensor that has storage has a buffer of its own shape and type
(`Context.Upholds`). Building a node of the pool keeps this, whether it fails or
not, and what it yields is a scalar of the type of the node (`build_types`).

Signatures are checked where operations are created. There the operands are
known to be of the types that the node asks for, because the nodes of a sound
pool are formed so, and stay of these types while the module grows.

**Epochs.** The same argument says where scalars come from: a scalar that an
operation uses was bound at some time before, or was made since. An epoch is
such a time, and the invariant carries one along; about the beginning of a
script it says nothing, and it can begin anew at any time (`Upholds.renew`). It
also says which functions there are, as no step but the beginning of a function
makes one.
-/

set_option autoImplicit false

namespace AffineKernel

/-- A time: how much of a module there was, and the values that were bound already; and the
functions that there may be since. -/
structure Epoch where
  ops : Nat
  blocks : Nat
  held : Value → Prop
  functions : OpId → Operation → Prop

namespace Epoch

/-- There may be any functions. -/
def Relaxed (epoch : Epoch) : Prop := ∀ id op, epoch.functions id op

/-- The same time, with any functions since. -/
def relax (epoch : Epoch) : Epoch := { epoch with functions := fun _ _ => True }

theorem relaxed_relax (epoch : Epoch) : epoch.relax.Relaxed := fun _ _ => trivial

/-- The time before everything. -/
def origin : Epoch := ⟨0, 0, fun _ => False, fun _ _ => True⟩

theorem relaxed_origin : origin.Relaxed := fun _ _ => trivial

end Epoch

/-- The operation or block of a value was made since some time. -/
def Value.Made (epoch : Epoch) : Value → Prop
  | .result op _ => epoch.ops ≤ op.index
  | .arg block _ => epoch.blocks ≤ block.index

/-- A value that was bound at some time or made since. -/
def Value.Since (epoch : Epoch) (value : Value) : Prop := epoch.held value ∨ value.Made epoch

/-- The kinds of operations that are created with a region. -/
def OpKind.opensRegion : OpKind → Bool
  | .func | .affineFor | .affineIf => true
  | _ => false

namespace Module

variable {epoch : Epoch} {before after module : Module}

/-- A scalar of a type that was bound at some time or made since. -/
structure Yields (epoch : Epoch) (module : Module) (value : Value) (dtype : DType) : Prop where
  typed : module.valueType? value = some (.scalar dtype)
  since : value.Since epoch

/-- A value that an operation made since some time may use. -/
def Offers (epoch : Epoch) (module : Module) (value : Value) : Prop :=
  module.IsBuffer value ∨ ∃ dtype, module.Yields epoch value dtype

theorem Yields.offers {value : Value} {dtype : DType} (yields : module.Yields epoch value dtype) :
    module.Offers epoch value := .inr ⟨dtype, yields⟩

theorem Yields.of_retains (retains : before.Retains after) {value : Value} {dtype : DType}
    (yields : before.Yields epoch value dtype) : after.Yields epoch value dtype :=
  ⟨retains.valueType? yields.typed, yields.since⟩

theorem Offers.of_retains (retains : before.Retains after) {value : Value}
    (offers : before.Offers epoch value) : after.Offers epoch value := by
  rcases offers with ⟨shape, element, typed⟩ | ⟨dtype, yields⟩
  · exact .inl ⟨shape, element, retains.valueType? typed⟩
  · exact .inr ⟨dtype, yields.of_retains retains⟩

theorem Offers.typed {value : Value} (offers : module.Offers epoch value) :
    ∃ type, module.valueType? value = some type := by
  rcases offers with ⟨shape, element, typed⟩ | ⟨dtype, yields⟩
  · exact ⟨_, typed⟩
  · exact ⟨_, yields.typed⟩

/-- Operations obey their signatures and use what was there before them, and those made since some
time use only scalars that were bound then or made since. Functions are those that may be. -/
structure Regular (epoch : Epoch) (module : Module) : Prop where
  obeys : ∀ {id : OpId} {op : Operation}, module.op? id = some op → op.ObeysExactly module
  uses : ∀ {id : OpId} {op : Operation}, module.op? id = some op → epoch.ops ≤ id.index →
    ∀ operand ∈ op.operands, module.Offers epoch operand
  prior : ∀ {id : OpId} {op : Operation}, module.op? id = some op →
    ∀ operand ∈ op.operands, module.Prior id operand
  owned : module.Owned
  opens : ∀ {id : OpId} {op : Operation}, module.op? id = some op → op.regions ≠ [] →
    op.kind.opensRegion = true
  functions : ∀ {id : OpId} {op : Operation}, module.op? id = some op → op.kind = .func →
    epoch.functions id op
  ops_le : epoch.ops ≤ module.ops.size
  blocks_le : epoch.blocks ≤ module.blocks.size

/-! ## Creations -/

/-- Blocks have arguments of given types. -/
def TakeArgs (module : Module) (blocks : List BlockId) (args : List (List ValueType)) : Prop :=
  blocks.map (fun block => (module.block? block).map Block.args) = args.map some

/-- A single block. -/
theorem TakeArgs.single {blocks : List BlockId} {args : List ValueType}
    (taken : module.TakeArgs blocks [args]) :
    ∃ block, blocks = [block] ∧ (module.block? block).map Block.args = some args := by
  simpa [TakeArgs, List.map_eq_singleton_iff] using taken

theorem args_create_region (module : Module) (draft : OpDraft) (point : InsertionPoint)
    (position : Nat) :
    ((module.create draft point).2.block? ⟨module.blocks.size + position⟩).map Block.args =
      draft.regions[position]? := by
  simp only [block?, create]
  rw [Array.getElem?_modify, Array.getElem?_append_right (Nat.le_add_right _ _),
    Nat.add_sub_cancel_left, List.getElem?_toArray, List.getElem?_map]
  split <;> cases draft.regions[position]? <;> rfl

/-- The blocks of a new operation have the arguments that it was drafted with. -/
theorem takeArgs_create (module : Module) (draft : OpDraft) (point : InsertionPoint) :
    (module.create draft point).2.TakeArgs (module.freshBlocks draft.regions.length)
      draft.regions := by
  refine List.ext_getElem? fun position => ?_
  by_cases small : position < draft.regions.length
  · have found := args_create_region module draft point position
    rw [List.getElem?_eq_getElem small] at found
    simp [freshBlocks, small, found]
  · simp [freshBlocks, small]

end Module

/-- The operation that a draft stands for. -/
def OpDraft.op (draft : OpDraft) (regions : List BlockId) (parent : BlockId) : Operation where
  kind := draft.kind
  operands := draft.operands
  results := draft.results
  attributes := draft.attributes
  regions := regions
  parent := parent

/-- Wherever a draft is created from now on, the operation obeys its signature. -/
def OpDraft.Suits (draft : OpDraft) (base : Module) : Prop :=
  ∀ (module : Module) (regions : List BlockId) (parent : BlockId), base.Retains module →
    module.TakeArgs regions draft.regions → (draft.op regions parent).ObeysExactly module

theorem OpDraft.Suits.of_retains {draft : OpDraft} {base later : Module} (suits : draft.Suits base)
    (retains : base.Retains later) : draft.Suits later :=
  fun module regions parent further => suits module regions parent (retains.trans further)

/-- An operation without regions obeys its signature wherever it is. -/
theorem OpDraft.suits {draft : OpDraft} {base : Module} (plain : draft.regions = [])
    (obeys : ∀ parent, (draft.op [] parent).ObeysExactly base) : draft.Suits base := by
  intro module regions parent retains taken
  obtain rfl : regions = [] := by simpa [Module.TakeArgs, plain] using taken
  exact (obeys parent).of_retains retains

namespace Module

variable {epoch : Epoch} {module : Module}

theorem Regular.create (regular : module.Regular epoch) {draft : OpDraft} {point : InsertionPoint}
    (suits : draft.Suits module) (offers : ∀ operand ∈ draft.operands, module.Offers epoch operand)
    (opens : draft.regions ≠ [] → draft.kind.opensRegion = true)
    (named : draft.kind = .func → epoch.Relaxed) :
    (module.create draft point).2.Regular epoch := by
  have retains := Retains.create module draft point
  refine ⟨fun {id op} found => ?_, fun {id op} found recent operand listed => ?_,
    fun {id op} found operand listed => ?_, regular.owned.create draft point,
    fun {id op} found regions => ?_, fun {id op} found kind => ?_, ?_, ?_⟩
  · rcases op?_of_op?_create found with rfl | old
    · obtain rfl := Option.some.inj (op?_create_self.symm.trans found)
      exact suits _ _ _ retains (takeArgs_create module draft point)
    · exact (regular.obeys old).of_retains retains
  · rcases op?_of_op?_create found with rfl | old
    · obtain rfl := Option.some.inj (op?_create_self.symm.trans found)
      exact (offers operand listed).of_retains retains
    · exact (regular.uses old recent operand listed).of_retains retains
  · rcases op?_of_op?_create found with rfl | old
    · obtain rfl := Option.some.inj (op?_create_self.symm.trans found)
      obtain ⟨type, typed⟩ := (offers operand listed).typed
      exact (regular.owned.prior typed).create draft point
    · exact (regular.prior old operand listed).create draft point
  · rcases op?_of_op?_create found with rfl | old
    · obtain rfl := Option.some.inj (op?_create_self.symm.trans found)
      refine opens fun none => regions ?_
      simp [none, freshBlocks]
    · exact regular.opens old regions
  · rcases op?_of_op?_create found with rfl | old
    · obtain rfl := Option.some.inj (op?_create_self.symm.trans found)
      exact named kind _ _
    · exact regular.functions old kind
  · rw [ops_size_create]
    exact Nat.le_succ_of_le regular.ops_le
  · rw [blocks_size_create]
    exact Nat.le_add_right_of_le regular.blocks_le

end Module

/-! ## Contexts -/

namespace Context

variable {epoch : Epoch} {pool wider : Pool} {before after context : Context}

/-- The module is well-typed, and what is bound and stored is of the types of its nodes and
tensors. -/
structure Upholds (epoch : Epoch) (pool : Pool) (context : Context) : Prop where
  sound : pool.Sound context.nextId
  regular : context.module.Regular epoch
  bound : ∀ {id : NodeId} {value : Value}, context.binding? id = some (.value value) →
    ∃ expr dtype, pool.expr expr ∧ expr.id = id ∧ expr.dtype? = some dtype ∧
      context.module.Yields epoch value dtype
  stored : ∀ {id : NodeId} {value : Value}, context.storage.find? id = some value →
    ∃ tensor, pool.tensor tensor ∧ tensor.id = id ∧
      context.module.valueType? value = some (.memref tensor.shape tensor.dtype)

namespace Upholds

/-- The module and the storage are the same, no more is bound, and no identity has become free. -/
theorem mono (upholds : before.Upholds epoch pool) (module : after.module = before.module)
    (bindings : ∀ id binding, after.binding? id = some binding →
      before.binding? id = some binding)
    (storage : after.storage = before.storage) (later : before.nextId ≤ after.nextId) :
    after.Upholds epoch pool where
  sound := upholds.sound.mono later
  regular := module ▸ upholds.regular
  bound found := module ▸ upholds.bound (bindings _ _ found)
  stored found := module ▸ upholds.stored (storage ▸ found)

/-- A wider pool. -/
theorem widen (upholds : context.Upholds epoch pool) (le : pool.Le wider)
    (sound : wider.Sound context.nextId) : context.Upholds epoch wider where
  sound := sound
  regular := upholds.regular
  bound found := by
    obtain ⟨expr, dtype, member, rest⟩ := upholds.bound found
    exact ⟨expr, dtype, le.expr member, rest⟩
  stored found := by
    obtain ⟨tensor, member, rest⟩ := upholds.stored found
    exact ⟨tensor, le.tensor member, rest⟩

/-- A module that has grown. -/
theorem grow (upholds : context.Upholds epoch pool) {module : Module}
    (retains : context.module.Retains module) (regular : module.Regular epoch) :
    ({ context with module := module } : Context).Upholds epoch pool where
  sound := upholds.sound
  regular := regular
  bound found := by
    obtain ⟨expr, dtype, member, same, typed, yields⟩ := upholds.bound found
    exact ⟨expr, dtype, member, same, typed, yields.of_retains retains⟩
  stored found := by
    obtain ⟨tensor, member, same, typed⟩ := upholds.stored found
    exact ⟨tensor, member, same, retains.valueType? typed⟩

theorem emit (upholds : context.Upholds epoch pool) (event : Event) :
    (context.emit event).Upholds epoch pool :=
  upholds.mono rfl (fun _ _ found => found) rfl (Nat.le_refl _)

/-- A node is bound to a scalar of its type, or to an operation. -/
theorem bind (upholds : context.Upholds epoch pool) (expr : Expr) {binding : Binding}
    (member : pool.expr expr)
    (typed : ∀ value, binding = .value value → ∃ dtype, expr.dtype? = some dtype ∧
      context.module.Yields epoch value dtype) :
    (context.bind expr.id binding).Upholds epoch pool :=
  { upholds with
    bound := fun {id value} found => by
      rw [binding?_bind] at found
      split at found
      · rename_i same
        obtain ⟨dtype, type, yields⟩ := typed value (Option.some.inj found)
        exact ⟨expr, dtype, member, same, type, yields⟩
      · exact upholds.bound found }

/-- A tensor receives a buffer of its shape and type. -/
theorem setStorage (upholds : context.Upholds epoch pool) {tensor : Tensor} {value : Value}
    (member : pool.tensor tensor)
    (typed : context.module.valueType? value = some (.memref tensor.shape tensor.dtype)) :
    (context.setStorage tensor value).Upholds epoch pool :=
  { upholds with
    stored := fun {id value} found => by
      simp only [Context.setStorage, Table.find?_insert] at found
      split at found
      · rename_i same
        cases found
        exact ⟨tensor, member, same, typed⟩
      · exact upholds.stored found }

/-- Closing a region undoes bindings and does nothing else to what was built. -/
theorem leave (upholds : context.Upholds epoch pool) (mark : RegionMark) :
    (context.leaveRegion mark).Upholds epoch pool := by
  refine upholds.mono rfl (fun id binding found => ?_) rfl (Nat.le_refl _)
  simp only [binding?, leaveRegion, Table.find?_eraseAll] at found
  split at found
  · cases found
  · exact found

/-- What a node of the pool is bound to. -/
theorem yields (upholds : context.Upholds epoch pool) {expr : Expr} {value : Value}
    (member : pool.expr expr) (found : context.binding? expr.id = some (.value value)) :
    ∃ dtype, expr.dtype? = some dtype ∧ context.module.Yields epoch value dtype := by
  obtain ⟨other, dtype, inside, same, typed, yields⟩ := upholds.bound found
  obtain rfl := upholds.sound.unique inside member same
  exact ⟨dtype, typed, yields⟩

/-- The buffer of a tensor of the pool. -/
theorem buffer (upholds : context.Upholds epoch pool) {tensor : Tensor} {value : Value}
    (member : pool.tensor tensor) (found : context.storage? tensor = some value) :
    context.module.valueType? value = some (.memref tensor.shape tensor.dtype) := by
  obtain ⟨other, inside, same, typed⟩ := upholds.stored found
  obtain rfl := upholds.sound.tensorUnique inside member same
  exact typed

end Upholds

/-- Some node is bound to a value. -/
def Holds (context : Context) (value : Value) : Prop :=
  ∃ id, context.binding? id = some (.value value)

/-- The time of a context, with no more functions since. -/
def now (context : Context) : Epoch where
  ops := context.module.ops.size
  blocks := context.module.blocks.size
  held := context.Holds
  functions id op := context.module.op? id = some op

/-- A pool that is upheld is upheld from now on. -/
theorem Upholds.renew (upholds : context.Upholds epoch pool) :
    context.Upholds context.now pool where
  sound := upholds.sound
  regular :=
    { upholds.regular with
      uses := fun found recent =>
        absurd recent (Nat.not_le_of_lt (Module.index_lt_of_op? found))
      functions := fun found _ => found
      ops_le := Nat.le_refl _
      blocks_le := Nat.le_refl _ }
  bound {id value} found := by
    obtain ⟨expr, dtype, member, same, typed, yields⟩ := upholds.bound found
    exact ⟨expr, dtype, member, same, typed, yields.typed, .inl ⟨id, found⟩⟩
  stored := upholds.stored

theorem Upholds.relax (upholds : context.Upholds epoch pool) :
    context.Upholds epoch.relax pool where
  sound := upholds.sound
  regular :=
    { upholds.regular with
      uses := fun found recent operand listed => by
        rcases upholds.regular.uses found recent operand listed with buffer | ⟨dtype, yields⟩
        · exact .inl buffer
        · exact .inr ⟨dtype, yields.typed, yields.since⟩
      functions := fun _ _ => trivial }
  bound found := by
    obtain ⟨expr, dtype, member, same, typed, yields⟩ := upholds.bound found
    exact ⟨expr, dtype, member, same, typed, yields.typed, yields.since⟩
  stored := upholds.stored

/-- Before the first step. -/
theorem start_upholds (mode : BuildMode) (log : Array Event) :
    (start mode .empty log).Upholds .origin .empty where
  sound := Pool.sound_empty _
  regular :=
    { obeys := by
        intro id op found
        simp [start, savePoint, Context.emit, Module.op?, Module.empty] at found
      uses := by
        intro id op found
        simp [start, savePoint, Context.emit, Module.op?, Module.empty] at found
      prior := by
        intro id op found
        simp [start, savePoint, Context.emit, Module.op?, Module.empty] at found
      owned := Module.owned_empty
      opens := by
        intro id op found
        simp [start, savePoint, Context.emit, Module.op?, Module.empty] at found
      functions := fun _ _ => trivial
      ops_le := Nat.zero_le _
      blocks_le := Nat.zero_le _ }
  bound := by
    intro id value found
    simp [binding?, start, savePoint, Context.emit] at found
  stored := by
    intro id value found
    simp [start, savePoint, Context.emit] at found

end Context

namespace BuildM

open Context

variable {α β : Type} {epoch : Epoch} {pool : Pool} {base : Module}

/-! ## Steps -/

/-- From a module that has all of `base`, an action keeps the pool upheld, whether it fails or not,
and ends in something good. -/
def Types (epoch : Epoch) (pool : Pool) (base : Module) (action : BuildM α)
    (good : Module → α → Prop) : Prop :=
  ∀ context, context.Upholds epoch pool → base.Retains context.module →
    Ensures action context
      (fun a after => after.Upholds epoch pool ∧ context.module.Retains after.module ∧
        good after.module a)
      (fun after => after.Upholds epoch pool)

namespace Types

variable {action : BuildM β} {next : β → BuildM α} {middle : Module → β → Prop}
  {good better : Module → α → Prop}

theorem bind (first : Types epoch pool base action middle)
    (second : ∀ b module, base.Retains module → middle module b →
      Types epoch pool module (next b) good) :
    Types epoch pool base (action >>= next) good := by
  intro context upholds retains
  rw [ensures_bind]
  refine (first context upholds retains).mono ?_ fun _ failed => failed
  rintro b after ⟨upheld, step, made⟩
  refine (second b after.module (retains.trans step) made after upheld (.refl _)).mono ?_
    fun _ failed => failed
  rintro a last ⟨upheld, further, done⟩
  exact ⟨upheld, step.trans further, done⟩

theorem mono {action : BuildM α} (types : Types epoch pool base action good)
    (implied : ∀ module a, base.Retains module → good module a → better module a) :
    Types epoch pool base action better := by
  intro context upholds retains
  refine (types context upholds retains).mono ?_ fun _ failed => failed
  rintro a after ⟨upheld, step, made⟩
  exact ⟨upheld, step, implied _ a (retains.trans step) made⟩

theorem pure {a : α} (made : ∀ module, base.Retains module → good module a) :
    Types epoch pool base (Pure.pure a : BuildM α) good :=
  fun context upholds retains => ⟨upholds, .refl _, made context.module retains⟩

theorem throw (error : BuildError) :
    Types epoch pool base (MonadExcept.throw error : BuildM α) good :=
  fun _ upholds _ => upholds

theorem throw_bind (error : BuildError) (next : β → BuildM α) :
    Types epoch pool base (MonadExcept.throw error >>= next) good :=
  fun _ upholds _ => upholds

theorem map {f : β → α} (types : Types epoch pool base action fun module b => good module (f b)) :
    Types epoch pool base (f <$> action) good := by
  intro context upholds retains
  rw [ensures_map]
  exact types context upholds retains

/-- A step that leaves the module, the bindings and the storage alone. -/
theorem modify {change : Context → Context}
    (upheld : ∀ context : Context, context.Upholds epoch pool →
      (change context).Upholds epoch pool)
    (module : ∀ context : Context, (change context).module = context.module) :
    Types epoch pool base (modify change : BuildM PUnit) fun _ _ => True := by
  intro context upholds _
  refine ⟨upheld context upholds, ?_, trivial⟩
  rw [module context]
  exact .refl _

theorem valueType_bind {expr : Expr} {next : DType → BuildM α}
    (types : ∀ dtype, expr.dtype? = some dtype → Types epoch pool base (next dtype) good) :
    Types epoch pool base (valueType expr >>= next) good := by
  intro context upholds retains
  rw [ensures_bind]
  exact ensures_valueType (fun dtype typed => types dtype typed context upholds retains) upholds

/-- A region around an action. -/
theorem inRegion {action : BuildM α} (types : Types epoch pool base action good) :
    Types epoch pool base (inRegion action) good := by
  intro context upholds retains
  rw [ensures_inRegion]
  have entered : context.enterRegion.Upholds epoch pool :=
    upholds.mono rfl (fun _ _ found => found) rfl (Nat.le_refl _)
  refine (types _ entered retains).mono ?_ fun _ failed => failed.leave _
  rintro a after ⟨upheld, step, made⟩
  exact ⟨upheld.leave _, step, made⟩

end Types

theorem emit_types (event : Event) :
    Types epoch pool base (emit event) fun _ _ => True :=
  Types.modify (fun _ upholds => upholds.emit event) fun _ => rfl

/-! ## Single operations -/

/-- A creation at any insertion point keeps the pool upheld. -/
theorem created_upholds {context : Context} {draft : OpDraft} (upholds : context.Upholds epoch pool)
    (suits : draft.Suits context.module)
    (offers : ∀ operand ∈ draft.operands, context.module.Offers epoch operand)
    (opens : draft.regions ≠ [] → draft.kind.opensRegion = true)
    (named : draft.kind = .func → epoch.Relaxed) (point : InsertionPoint) (event : Event) :
    ({ context with module := (context.module.create draft point).2 }.emit event).Upholds epoch
      pool := by
  have step := Module.Retains.create context.module draft point
  exact (upholds.grow step (upholds.regular.create suits offers opens named)).emit event

/-- An operation without regions, so no function. -/
theorem create_types {draft : OpDraft} (plain : draft.regions = [])
    (obeys : ∀ parent, (draft.op [] parent).ObeysExactly base)
    (offers : ∀ operand ∈ draft.operands, base.Offers epoch operand) :
    Types epoch pool base (create draft) fun module id =>
      epoch.ops ≤ id.index ∧ ∃ regions parent, module.op? id = some (draft.op regions parent) := by
  intro context upholds retains
  refine ensures_create (fun point rest stack => ?_) fun _ => upholds
  have unnamed : draft.kind ≠ .func := by
    intro kind
    have admits : (draft.op [] point.block).Admits True base draft.kind.signature :=
      obeys point.block
    rw [kind] at admits
    obtain ⟨-, -, ⟨body, regions⟩, -⟩ := admits
    cases regions
  have upheld := created_upholds upholds ((OpDraft.suits plain obeys).of_retains retains)
    (fun operand listed => (offers operand listed).of_retains retains) (absurd plain)
    (absurd · unnamed) point
  exact ⟨upheld _, .create _ _ _, upholds.regular.ops_le, _, _, Module.op?_create_self⟩

/-- The block of a region that was just created. -/
theorem createRegion_types {kind : OpKind} {operands : List Value}
    {attributes : List (String × Attribute)} {args : List ValueType}
    (suits : ({ kind, operands, attributes, regions := [args] } : OpDraft).Suits base)
    (offers : ∀ operand ∈ operands, base.Offers epoch operand) (opens : kind.opensRegion = true)
    (named : kind = .func → epoch.Relaxed) :
    Types epoch pool base (createRegion kind operands attributes args) fun module made =>
      (module.block? made.2).map Block.args = some args ∧ epoch.blocks ≤ made.2.index := by
  intro context upholds retains
  simp only [createRegion, ensures_bind, ensures_get, ensures_pure]
  refine ensures_create (fun point rest stack => ?_) fun _ => upholds
  have upheld := created_upholds upholds (suits.of_retains retains)
    (fun operand listed => (offers operand listed).of_retains retains) (fun _ => opens) named point
  have taken := Module.args_create_region context.module
    { kind, operands, attributes, regions := [args] } point 0
  exact ⟨upheld _, .create _ _ _, taken, upholds.regular.blocks_le⟩

theorem createValue_types {kind : OpKind} {operands : List Value} {type : ValueType}
    {attributes : List (String × Attribute)}
    (obeys : ∀ parent, (⟨kind, operands, [type], attributes, [], parent⟩ : Operation).ObeysExactly
      base)
    (offers : ∀ operand ∈ operands, base.Offers epoch operand) :
    Types epoch pool base (createValue kind operands type attributes) fun module value =>
      module.valueType? value = some type ∧ value.Since epoch := by
  refine (create_types rfl obeys offers).bind ?_
  rintro id module - ⟨recent, regions, parent, found⟩
  refine Types.pure fun later retains => ⟨retains.valueType? ?_, .inr recent⟩
  simp [Module.valueType?, found, OpDraft.op]

/-- An operation that yields a scalar. -/
theorem createScalar_types {kind : OpKind} {operands : List Value} {dtype : DType}
    {attributes : List (String × Attribute)}
    (obeys : ∀ parent,
      (⟨kind, operands, [.scalar dtype], attributes, [], parent⟩ : Operation).ObeysExactly base)
    (offers : ∀ operand ∈ operands, base.Offers epoch operand) :
    Types epoch pool base (createValue kind operands (.scalar dtype) attributes)
      fun module value => module.Yields epoch value dtype :=
  (createValue_types obeys offers).mono fun _ _ _ made => ⟨made.1, made.2⟩

end BuildM

end AffineKernel
