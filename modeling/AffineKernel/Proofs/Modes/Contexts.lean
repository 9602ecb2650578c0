import AffineKernel.Proofs.Build.Bindings
import AffineKernel.Proofs.Build.Nodes
import AffineKernel.Proofs.Modes.Coherence

/-!
# Contexts of two modes

A script is run in both modes, and the contexts of the two runs are compared
after each step. Their insertion points are the same places, and their modules are
parallel (`Context.Aligned`). Each of the modules is *tidy*: its
pure loads read the buffers of tensors, and it calls nothing (`Context.Tidy`).

Contexts stay aligned when one of them creates pure operations
(`Context.Enriches`), when both create an operation that acts, on twins, and
whatever happens to bindings.
-/

set_option autoImplicit false

namespace AffineKernel

namespace Module

/-- A value that a module does not show. -/
def Unseen (module : Module) (value : Value) : Prop := ∀ tree, ¬ module.Shows tree value

/-- The result of the next operation is not seen yet. -/
theorem unseen_result (module : Module) (position : Nat) :
    module.Unseen (.result ⟨module.ops.size⟩ position) := by
  have old : ∀ {id : OpId} {op : Operation}, module.op? id = some op →
      Value.result ⟨module.ops.size⟩ position ≠ .result id 0 := by
    rintro id op found same
    cases same
    exact Nat.lt_irrefl _ (index_lt_of_op? found)
  intro tree shows_
  cases tree with
  | arg block place => cases shows_.1
  | act rank results =>
      obtain ⟨id, op, same, found, -⟩ := shows_
      exact old found same
  | pure kind attributes results operands =>
      obtain ⟨id, op, same, found, -⟩ := shows_
      exact old found same

/-- What is stored to is stored to. -/
theorem Writes.grow {module grown : Module} {value : Value} (writes : module.Writes value)
    (retains : module.Retains grown) : grown.Writes value := by
  obtain ⟨id, op, found, kind, listed⟩ := writes
  exact ⟨id, op, retains.op? found, kind, listed⟩

/-- The arguments of the next block are not seen yet. -/
theorem unseen_arg (module : Module) (position : Nat) :
    module.Unseen (.arg ⟨module.blocks.size⟩ position) := by
  intro tree shows_
  cases tree with
  | arg block place =>
      obtain ⟨same, small⟩ := shows_
      cases same
      exact Nat.lt_irrefl _ small
  | act rank results =>
      obtain ⟨id, op, same, -⟩ := shows_
      cases same
  | pure kind attributes results operands =>
      obtain ⟨id, op, same, -⟩ := shows_
      cases same

end Module

namespace Context

variable {permit : Permit} {context before middle after : Context} {draft : OpDraft}

/-! ## Tidy contexts -/

/-- A buffer that may be stored to: that of a tensor to which the permit allows it, or one that is
the storage of no tensor. -/
def Writable (permit : Permit) (context : Context) (value : Value) : Prop :=
  (∃ tensor, permit.stores tensor ∧ context.storage.find? tensor.id = some value) ∨
    (∃ tree, context.module.Shows tree value) ∧ ∀ id, context.storage.find? id ≠ some value

/-- What may be created: pure loads and stores that a permit allows, and no call. -/
structure Allows (permit : Permit) (context : Context) (draft : OpDraft) : Prop where
  load : draft.isPure = true → draft.kind = .load → ∀ value, draft.operands[0]? = some value →
    ∃ tensor, permit.loads tensor ∧ context.storage.find? tensor.id = some value
  store : draft.kind = .store → ∀ value, draft.operands[1]? = some value →
    context.Writable permit value
  uncalled : draft.kind ≠ .call

/-- Whatever is no load, no store and no call may be created. -/
theorem Allows.of_kind (load : draft.kind ≠ .load) (store : draft.kind ≠ .store)
    (call : draft.kind ≠ .call) : context.Allows permit draft :=
  ⟨fun _ kind => absurd kind load, fun kind => absurd kind store, call⟩

/-- Whatever acts, and is neither a store nor a call, may be created. -/
theorem Allows.of_acts (acts : draft.isPure = false) (store : draft.kind ≠ .store)
    (call : draft.kind ≠ .call) : context.Allows permit draft := by
  refine ⟨fun pure => ?_, fun kind => absurd kind store, call⟩
  rw [acts] at pure
  cases pure

/-- A store to a buffer that may be stored to may be created. -/
theorem Allows.of_store (kind : draft.kind = .store)
    (writable : ∀ value, draft.operands[1]? = some value → context.Writable permit value) :
    context.Allows permit draft where
  load _ other := by
    rw [kind] at other
    cases other
  store _ := writable
  uncalled other := by
    rw [kind] at other
    cases other

/-- Pure loads read the buffers of tensors, and stores change buffers, as a permit allows it;
nothing is called. Tensors have different buffers. -/
structure Tidy (permit : Permit) (context : Context) : Prop where
  reads : ∀ {value : Value}, context.module.Reads value →
    ∃ tensor, permit.loads tensor ∧ context.storage.find? tensor.id = some value
  writes : ∀ {value : Value}, context.module.Writes value → context.Writable permit value
  uncalled : ∀ {id : OpId} {op : Operation}, context.module.op? id = some op → op.kind ≠ .call
  shown : ∀ {id : NodeId} {value : Value}, context.storage.find? id = some value →
    ∃ tree, context.module.Shows tree value
  apart : ∀ {id other : NodeId} {value : Value}, context.storage.find? id = some value →
    context.storage.find? other = some value → id = other

/-- A context with the same module and the same storage. -/
theorem Tidy.of_same (tidy : before.Tidy permit) (module : after.module = before.module)
    (storage : after.storage = before.storage) : after.Tidy permit where
  reads := module ▸ storage ▸ tidy.reads
  writes written := by
    rw [Writable, module, storage]
    exact tidy.writes (module ▸ written)
  uncalled := module ▸ tidy.uncalled
  shown := module ▸ storage ▸ tidy.shown
  apart := storage ▸ tidy.apart

theorem Tidy.create (tidy : context.Tidy permit) (allows : context.Allows permit draft)
    (point : InsertionPoint) :
    ({ context with module := (context.module.create draft point).2 } : Context).Tidy permit := by
  have retains := Module.Retains.create context.module draft point
  have keeps : ∀ {value : Value}, context.Writable permit value →
      ({ context with module := (context.module.create draft point).2 } : Context).Writable permit
        value :=
    fun writable => writable.imp_right fun ⟨⟨tree, shows_⟩, free⟩ =>
      ⟨⟨tree, retains.shows tree shows_⟩, free⟩
  refine ⟨?_, ?_, ?_, fun found => ?_, tidy.apart⟩
  · rintro value ⟨id, op, found, pure, kind, listed⟩
    rcases Module.op?_of_op?_create found with rfl | old
    · cases Module.op?_create_self.symm.trans found
      exact allows.load pure kind value listed
    · exact tidy.reads ⟨id, op, old, pure, kind, listed⟩
  · rintro value ⟨id, op, found, kind, listed⟩
    rcases Module.op?_of_op?_create found with rfl | old
    · cases Module.op?_create_self.symm.trans found
      exact keeps (allows.store kind value listed)
    · exact keeps (tidy.writes ⟨id, op, old, kind, listed⟩)
  · intro id op found
    rcases Module.op?_of_op?_create found with rfl | old
    · cases Module.op?_create_self.symm.trans found
      exact allows.uncalled
    · exact tidy.uncalled old
  · obtain ⟨tree, shows_⟩ := tidy.shown found
    exact ⟨tree, retains.shows tree shows_⟩

/-- A buffer that is nobody's yet: the storage of no tensor, and not stored to. -/
def Unused (context : Context) (value : Value) : Prop :=
  (∀ id, context.storage.find? id ≠ some value) ∧ ¬ context.module.Writes value

/-- What was not seen before an operation is unused after it. -/
theorem Tidy.unused (tidy : context.Tidy permit) {value : Value}
    (unseen : context.module.Unseen value) (store : draft.kind ≠ .store) (point : InsertionPoint) :
    ({ context with module := (context.module.create draft point).2 } : Context).Unused value := by
  have free : ∀ id, context.storage.find? id ≠ some value := fun id found =>
    (tidy.shown found).elim unseen
  refine ⟨free, ?_⟩
  rintro ⟨id, op, found, kind, listed⟩
  rcases Module.op?_of_op?_create found with rfl | old
  · cases Module.op?_create_self.symm.trans found
    exact store kind
  · rcases tidy.writes ⟨id, op, old, kind, listed⟩ with ⟨tensor, -, stored⟩ | ⟨⟨tree, shows_⟩, -⟩
    · exact free tensor.id stored
    · exact unseen tree shows_

/-- Another buffer stays unused when a tensor gets its storage. -/
theorem Unused.setStorage {value other : Value} (unused : context.Unused value) (tensor : Tensor)
    (different : other ≠ value) : (context.setStorage tensor other).Unused value := by
  refine ⟨fun id found => ?_, unused.2⟩
  rw [Context.setStorage, Table.find?_insert] at found
  split at found
  · exact different (Option.some.inj found)
  · exact unused.1 id found

/-- A tensor without storage gets an unused buffer. -/
theorem Tidy.setStorage (tidy : context.Tidy permit) {tensor : Tensor} {value : Value}
    (free : context.storage.find? tensor.id = none) (unused : context.Unused value) {tree : Tree}
    (shows_ : context.module.Shows tree value) : (context.setStorage tensor value).Tidy permit := by
  have keeps : ∀ {id : NodeId} {other : Value}, context.storage.find? id = some other →
      (context.setStorage tensor value).storage.find? id = some other := by
    intro id other found
    rw [Context.setStorage, Table.find?_insert, if_neg, found]
    rintro rfl
    rw [free] at found
    cases found
  have cases : ∀ {id : NodeId} {other : Value},
      (context.setStorage tensor value).storage.find? id = some other →
      (tensor.id = id ∧ value = other) ∨ context.storage.find? id = some other := by
    intro id other found
    rw [Context.setStorage, Table.find?_insert] at found
    split at found
    · rename_i same
      exact .inl ⟨same, Option.some.inj found⟩
    · exact .inr found
  refine ⟨fun reads => ?_, fun written => ?_, tidy.uncalled, fun found => ?_, fun found again => ?_⟩
  · obtain ⟨source, may, found⟩ := tidy.reads reads
    exact ⟨source, may, keeps found⟩
  · rcases tidy.writes written with ⟨target, may, found⟩ | ⟨known, none⟩
    · exact .inl ⟨target, may, keeps found⟩
    · refine .inr ⟨known, fun id found => ?_⟩
      rcases cases found with ⟨-, rfl⟩ | old
      · exact unused.2 written
      · exact none id old
  · rcases cases found with ⟨-, rfl⟩ | old
    · exact ⟨tree, shows_⟩
    · exact tidy.shown old
  · rcases cases found with ⟨rfl, rfl⟩ | old
    · rcases cases again with ⟨rfl, -⟩ | other
      · rfl
      · exact absurd other (unused.1 _)
    · rcases cases again with ⟨rfl, rfl⟩ | other
      · exact absurd old (unused.1 _)
      · exact tidy.apart old other

/-! ## Aligned contexts -/

/-- Contexts with parallel modules, whose tensors have twins as their storage. -/
structure Aligned (permit : Permit) (first second : Context) : Prop where
  parallel : Module.Parallel first.module second.module
  stack : List.Forall₂ (Module.SamePlace first.module second.module) first.stack second.stack
  nextId : first.nextId = second.nextId
  fresh : ∀ id, first.nextId ≤ id → first.storage.find? id = none
  stored : ∀ id, first.storage.find? id = none ∧ second.storage.find? id = none ∨
    ∃ value partner, first.storage.find? id = some value ∧
      second.storage.find? id = some partner ∧
      Module.Twins first.module second.module value partner
  left : first.Tidy permit
  right : second.Tidy permit

/-- A context that has all of another one. -/
structure Grown (before after : Context) : Prop where
  module : before.module.Retains after.module
  storage : ∀ {id : NodeId} {value : Value}, before.storage.find? id = some value →
    after.storage.find? id = some value
  mode : after.mode = before.mode

theorem Grown.refl (context : Context) : Grown context context :=
  ⟨.refl _, fun found => found, rfl⟩

theorem Grown.trans (first : Grown before middle) (second : Grown middle after) :
    Grown before after :=
  ⟨first.module.trans second.module, fun found => second.storage (first.storage found),
    second.mode.trans first.mode⟩

/-- A context that differs in what storage and module are not concerned by. -/
theorem Grown.of_same (module : after.module = before.module)
    (storage : after.storage = before.storage) (mode : after.mode = before.mode) :
    Grown before after :=
  ⟨module ▸ .refl _, fun found => storage ▸ found, mode⟩

/-- Only bindings and events may differ. -/
structure Coincides (before after : Context) : Prop where
  module : after.module = before.module
  storage : after.storage = before.storage
  stack : after.stack = before.stack
  nextId : after.nextId = before.nextId

theorem Coincides.refl (context : Context) : Coincides context context := ⟨rfl, rfl, rfl, rfl⟩

theorem Coincides.bind (context : Context) (id : NodeId) (binding : Binding) :
    Coincides context (context.bind id binding) := ⟨rfl, rfl, rfl, rfl⟩

theorem Coincides.emit (context : Context) (event : Event) :
    Coincides context (context.emit event) :=
  ⟨rfl, rfl, rfl, rfl⟩

namespace Aligned

variable {first second : Context}

/-- Bindings and events do not matter. -/
theorem alike (aligned : Aligned permit first second) {last : Context}
    (left : Coincides first after) (right : Coincides second last) : Aligned permit after last where
  parallel := left.module ▸ right.module ▸ aligned.parallel
  stack := left.module ▸ right.module ▸ left.stack ▸ right.stack ▸ aligned.stack
  nextId := left.nextId.trans (aligned.nextId.trans right.nextId.symm)
  fresh := left.nextId ▸ left.storage ▸ aligned.fresh
  stored := left.module ▸ right.module ▸ left.storage ▸ right.storage ▸ aligned.stored
  left := aligned.left.of_same left.module left.storage
  right := aligned.right.of_same right.module right.storage

theorem symm (aligned : Aligned permit first second) : Aligned permit second first where
  parallel := aligned.parallel.symm
  stack := aligned.stack.flip.imp fun _ _ same => same.symm aligned.parallel.size
  nextId := aligned.nextId.symm
  fresh id le := by
    rcases aligned.stored id with ⟨-, there⟩ | ⟨value, partner, here, -⟩
    · exact there
    · rw [aligned.fresh id (aligned.nextId ▸ le)] at here
      cases here
  stored id := by
    rcases aligned.stored id with ⟨here, there⟩ | ⟨value, partner, here, there, twins⟩
    · exact .inl ⟨there, here⟩
    · exact .inr ⟨partner, value, there, here, twins.symm⟩
  left := aligned.right
  right := aligned.left

/-- Both contexts have fewer insertion points. -/
theorem drop (aligned : Aligned permit first second) (count : Nat) {after last : Context}
    (left : Coincides { first with stack := first.stack.drop count } after)
    (right : Coincides { second with stack := second.stack.drop count } last) :
    Aligned permit after last := by
  have fewer : Aligned permit { first with stack := first.stack.drop count }
      { second with stack := second.stack.drop count } :=
    { aligned with
      stack := List.forall₂_drop count aligned.stack
      left := aligned.left.of_same rfl rfl
      right := aligned.right.of_same rfl rfl }
  exact fewer.alike left right

theorem depth (aligned : Aligned permit first second) : first.depth = second.depth :=
  aligned.stack.length_eq

/-- Both contexts leave a region. -/
theorem leave (aligned : Aligned permit first second) {mark other : RegionMark}
    (same : mark.depth = other.depth) :
    Aligned permit (first.leaveRegion mark) (second.leaveRegion other) := by
  refine aligned.drop (first.depth - mark.depth) ⟨rfl, rfl, rfl, rfl⟩ ⟨rfl, rfl, ?_, rfl⟩
  rw [aligned.depth, same]
  rfl

/-- Both contexts have one more insertion point, at the same place. -/
theorem push (aligned : Aligned permit first second) {point place : InsertionPoint}
    (same : Module.SamePlace first.module second.module point place) {after last : Context}
    (left : Coincides { first with stack := point :: first.stack } after)
    (right : Coincides { second with stack := place :: second.stack } last) :
    Aligned permit after last := by
  have more : Aligned permit { first with stack := point :: first.stack }
      { second with stack := place :: second.stack } :=
    { aligned with
      stack := .cons same aligned.stack
      left := aligned.left.of_same rfl rfl
      right := aligned.right.of_same rfl rfl }
  exact more.alike left right

/-- The storage of a tensor in both contexts. -/
theorem twins (aligned : Aligned permit first second) {id : NodeId} {value partner : Value}
    (found : first.storage.find? id = some value) (known : second.storage.find? id = some partner) :
    Module.Twins first.module second.module value partner := by
  rcases aligned.stored id with ⟨here, -⟩ | ⟨_, _, here, there, twins⟩
  · rw [found] at here
    cases here
  · cases found.symm.trans here
    cases known.symm.trans there
    exact twins

/-- The insertion point of the other context. -/
theorem exists_place (aligned : Aligned permit first second) {point : InsertionPoint}
    {rest : List InsertionPoint} (stack : first.stack = point :: rest) :
    ∃ place others, second.stack = place :: others ∧
      Module.SamePlace first.module second.module point place := by
  have both := aligned.stack
  rw [stack] at both
  obtain ⟨place, others, same, -, there⟩ := List.forall₂_cons_left_iff.mp both
  exact ⟨place, others, there, same⟩

/-- The insertion points of both contexts are the same place. -/
theorem same_place (aligned : Aligned permit first second) {point place : InsertionPoint}
    {rest others : List InsertionPoint} (stack : first.stack = point :: rest)
    (also : second.stack = place :: others) :
    Module.SamePlace first.module second.module point place := by
  obtain ⟨_, _, there, same⟩ := aligned.exists_place stack
  cases also.symm.trans there
  exact same

/-- One of the contexts creates a pure operation. -/
theorem create_left (aligned : Aligned permit first second) {point : InsertionPoint}
    {rest : List InsertionPoint} (stack : first.stack = point :: rest) (pure : draft.isPure = true)
    (flat : draft.regions = []) (allows : first.Allows permit draft) :
    Aligned permit { first with module := (first.module.create draft point).2 } second := by
  obtain ⟨place, others, -, same⟩ := aligned.exists_place stack
  have retains := Module.Retains.create first.module draft point
  exact
    { parallel := aligned.parallel.create_left (Array.getElem?_eq_getElem same.small)
        (fun _ => same.acts) pure flat
      stack := aligned.stack.imp fun _ _ same => same.grow retains (.refl _)
      nextId := aligned.nextId
      fresh := aligned.fresh
      stored := fun id => (aligned.stored id).imp_right fun ⟨value, partner, here, there, twins⟩ =>
        ⟨value, partner, here, there, twins.grow retains (.refl _)⟩
      left := aligned.left.create allows point
      right := aligned.right }

/-- Both contexts create an operation that acts. -/
theorem create_both (aligned : Aligned permit first second) {twin : OpDraft}
    {point place : InsertionPoint} {rest others : List InsertionPoint}
    (stack : first.stack = point :: rest) (also : second.stack = place :: others)
    (acts : draft.isPure = false) (kind : draft.kind = twin.kind)
    (attributes : draft.attributes = twin.attributes) (results : draft.results = twin.results)
    (regions : draft.regions = twin.regions)
    (operands : List.Forall₂ (Module.Twins first.module second.module) draft.operands twin.operands)
    (allows : first.Allows permit draft) (alsoAllows : second.Allows permit twin) :
    Aligned permit { first with module := (first.module.create draft point).2 }
      { second with module := (second.module.create twin place).2 } := by
  have same := aligned.same_place stack also
  have listed := Array.getElem?_eq_getElem same.small
  have known := Array.getElem?_eq_getElem (same.symm aligned.parallel.size).small
  have retains := Module.Retains.create first.module draft point
  have widens := Module.Retains.create second.module twin place
  exact
    { parallel := aligned.parallel.create_both listed known same acts kind attributes results
        regions operands
      stack := aligned.stack.imp fun _ _ same => same.grow retains widens
      nextId := aligned.nextId
      fresh := aligned.fresh
      stored := fun id => (aligned.stored id).imp_right fun ⟨value, partner, here, there, twins⟩ =>
        ⟨value, partner, here, there, twins.grow retains widens⟩
      left := aligned.left.create allows point
      right := aligned.right.create alsoAllows place }

end Aligned

/-! ## Pure additions -/

/-- A context logs events and creates pure operations at its insertion point. -/
inductive Enriches (permit : Permit) (before : Context) : Context → Prop where
  | refl : Enriches permit before before
  | log {after : Context} (event : Event) : Enriches permit before after →
      Enriches permit before (after.emit event)
  | create {after : Context} {draft : OpDraft} {point : InsertionPoint}
      {rest : List InsertionPoint} :
      Enriches permit before after → after.stack = point :: rest → draft.isPure = true →
      draft.regions = [] → after.Allows permit draft →
      Enriches permit before { after with module := (after.module.create draft point).2 }

namespace Enriches

theorem trans (first : Enriches permit before middle) (second : Enriches permit middle after) :
    Enriches permit before after := by
  induction second with
  | refl => exact first
  | log event _ ih => exact .log event ih
  | create _ stack pure flat allows ih => exact .create ih stack pure flat allows

/-- Bindings, storage and identities stay as they are. -/
theorem same (enriches : Enriches permit before after) : after.bindings = before.bindings ∧
    after.storage = before.storage ∧ after.stack = before.stack ∧ after.nextId = before.nextId ∧
    after.mode = before.mode ∧ after.regions = before.regions ∧
    after.regionNodes = before.regionNodes := by
  induction enriches with
  | refl => exact ⟨rfl, rfl, rfl, rfl, rfl, rfl, rfl⟩
  | log event _ ih => exact ih
  | create _ _ _ _ _ ih => exact ih

theorem grown (enriches : Enriches permit before after) : Grown before after := by
  induction enriches with
  | refl => exact .refl before
  | log event _ ih => exact ih.trans (.of_same rfl rfl rfl)
  | create _ _ _ _ _ ih => exact ih.trans ⟨.create _ _ _, fun found => found, rfl⟩

theorem aligned_left {other : Context} (enriches : Enriches permit before after)
    (aligned : Aligned permit before other) : Aligned permit after other := by
  induction enriches with
  | refl => exact aligned
  | log event _ ih => exact ih.alike (.emit _ event) (.refl other)
  | create _ stack pure flat allows ih => exact ih.create_left stack pure flat allows

theorem aligned_right {other : Context} (enriches : Enriches permit before after)
    (aligned : Aligned permit other before) : Aligned permit other after :=
  (enriches.aligned_left aligned.symm).symm

end Enriches

end Context

end AffineKernel
