import AffineKernel.Proofs.Build.Success
import AffineKernel.Proofs.Script.Deferral
import AffineKernel.Proofs.Script.Origins
import AffineKernel.Proofs.Simulation.Regions

/-!
# Calls of functions

A function that is the first operation of a module is called by its name with
one buffer for each of its tensors. The run of its block starts in a frame that
represents the context in which its body was built: nothing is bound, and each
tensor has its buffer (`Context.Hosts.represents`). What the operations of the block
realize is what the call replies (`Machine.call_answers`).
-/

set_option autoImplicit false

namespace AffineKernel

/-- A buffer that a tensor can stand for: of its shape, with elements of its type. -/
structure Tensor.Accepts (tensor : Tensor) (buffer : Buffer) : Prop where
  shape : buffer.shape = tensor.shape
  element : buffer.element = tensor.dtype
  fits : ∀ scalar ∈ buffer.data, scalar.Fits tensor.dtype

/-- One buffer for each tensor. -/
structure Tensor.AcceptAll (tensors : List Tensor) (buffers : List Buffer) : Prop where
  count : buffers.length = tensors.length
  each : ∀ {position : Nat} {tensor : Tensor} {buffer : Buffer},
    tensors[position]? = some tensor → buffers[position]? = some buffer → tensor.Accepts buffer

theorem Tensor.AcceptAll.singleton {tensor : Tensor} {buffer : Buffer}
    (accepts : tensor.Accepts buffer) : AcceptAll [tensor] [buffer] where
  count := rfl
  each := by
    intro position other held listed given
    obtain rfl : position = 0 := by
      have small := (List.getElem?_eq_some_iff.mp listed).1
      simpa using small
    cases listed
    cases given
    exact accepts

/-- The contents of tensors that stand for buffers. -/
def Memory.ofArgs (tensors : List Tensor) (buffers : List Buffer) : Memory :=
  Table.find? ⟨(tensors.map Tensor.id).zip buffers⟩

/-- What the body of a function is evaluated in: no loop is open, and the buffers that it is called
with lie at the end of the heap. -/
def Setting.ofCall (tensors : List Tensor) (buffers : List Buffer) (base : Nat) : Setting where
  env := fun _ => none
  memory := .ofArgs tensors buffers
  place := Table.find?
    ⟨(tensors.map Tensor.id).zip ((List.range buffers.length).map (base + ·))⟩

/-! ## The start of a function -/

namespace BuildM

/-- Tensors have the arguments of a block as storage. -/
theorem bindArgs_stores (block : BlockId) : ∀ (tensors : List Tensor) (position : Nat)
    (context : Context),
    Succeeds (bindArgs block position tensors) context
      (fun _ after => (∃ storage, after = { context with storage := storage }) ∧
        (∀ id value, after.storage.find? id = some value →
          (∃ place tensor, tensors[place]? = some tensor ∧ tensor.id = id ∧
            value = .arg block (position + place)) ∨ context.storage.find? id = some value) ∧
        ∀ id, id ∈ tensors.map Tensor.id ∨ context.storage.find? id ≠ none →
          after.storage.find? id ≠ none)
  | [], position, context =>
      ⟨⟨context.storage, rfl⟩, fun _ _ found => .inr found, fun _ old => by simpa using old⟩
  | tensor :: rest, position, context => by
      rw [bindArgs, Succeeds, ensures_bind, ensures_modify]
      refine (bindArgs_stores block rest (position + 1) _).mono ?_ fun _ impossible => impossible
      rintro - after ⟨⟨storage, rfl⟩, entries, complete⟩
      refine ⟨⟨storage, rfl⟩, fun id value found => ?_, fun id known => complete id ?_⟩
      · rcases entries id value found with ⟨place, other, listed, same, argument⟩ | old
        · refine .inl ⟨place + 1, other, listed, same, ?_⟩
          rw [argument, Nat.add_assoc, Nat.add_comm 1 place]
        · rw [Context.setStorage, Table.find?_insert] at old
          split at old
          · rename_i same
            exact .inl ⟨0, tensor, rfl, same, (Option.some.inj old).symm⟩
          · exact .inr old
      · rw [Context.setStorage, Table.find?_insert]
        by_cases same : tensor.id = id
        · exact .inr (by simp [same])
        · rw [if_neg same]
          rcases known with listed | old
          · rw [List.map_cons, List.mem_cons] at listed
            exact .inl (listed.resolve_left fun equal => same equal.symm)
          · exact .inr old

end BuildM

/-- The types of the parameters of a function. -/
def parameters (tensors : List Tensor) : List ValueType :=
  tensors.map fun tensor => .memref tensor.shape tensor.dtype

/-- A function, before it is created. -/
def functionDraft (name : String) (tensors : List Tensor) : OpDraft where
  kind := .func
  attributes := [("sym_name", .str name)]
  regions := [parameters tensors]

/-- A context in which nothing has been built yet. -/
structure Context.Blank (context : Context) : Prop where
  module : context.module = .empty
  stack : context.stack = [.atEnd Module.body]
  unbound : ∀ id, context.binding? id = none
  unstored : ∀ id, context.storage.find? id = none

/-- A context at the start of the body of a function, which is the first operation of its module:
the body is empty, and nothing is bound. -/
structure Context.Hosts (name : String) (tensors : List Tensor) (context : Context) : Prop where
  func : ∃ op, context.module.op? ⟨0⟩ = some op ∧ op.kind = .func ∧
    op.attr? "sym_name" = some (.str name) ∧ op.regions = [⟨1⟩]
  body : context.module.block? ⟨1⟩ = some ⟨parameters tensors, [], some ⟨0⟩⟩
  stack : context.stack = [.atEnd ⟨1⟩, .atEnd Module.body]
  unbound : ∀ id, context.binding? id = none
  stored : ∀ {id : NodeId} {value : Value}, context.storage.find? id = some value →
    ∃ place tensor, tensors[place]? = some tensor ∧ tensor.id = id ∧ value = .arg ⟨1⟩ place
  complete : ∀ id ∈ tensors.map Tensor.id, context.storage.find? id ≠ none

namespace BuildM

/-- A function is begun in a blank context, and its body is entered. -/
theorem beginFunction_hosts (name : String) (tensors : List Tensor) {context : Context}
    (blank : context.Blank) :
    Succeeds (beginFunction name tensors) context
      (fun made after => made = (⟨0⟩, ⟨1⟩) ∧ after.mode = context.mode ∧
        after.nextId = context.nextId ∧
        (after.enterRegion.savePoint (.atEnd ⟨1⟩)).Hosts name tensors) := by
  have body : context.module.block? Module.body = some ⟨[], [], none⟩ := by
    rw [blank.module]
    rfl
  have blocks : context.module.blocks.size = 1 := by
    rw [blank.module]
    rfl
  have ops : context.module.ops.size = 0 := by
    rw [blank.module]
    rfl
  simp only [Succeeds, beginFunction, createRegion, ensures_bind, ensures_get]
  refine ensures_create (fun point rest stack => ?_) fun empty => by simp [blank.stack] at empty
  obtain rfl : point = .atEnd Module.body := by
    rw [blank.stack] at stack
    exact (List.cons.inj stack).1.symm
  simp only [ensures_pure, ensures_emit]
  refine (bindArgs_stores _ tensors 0 _).mono ?_ fun _ impossible => impossible
  rintro - after ⟨⟨storage, rfl⟩, entries, complete⟩
  rw [blocks] at entries
  refine ⟨by rw [ops, blocks], rfl, rfl, ?_⟩
  refine
    { func := ?_
      body := ?_
      stack := congrArg (List.cons _) blank.stack
      unbound := blank.unbound
      stored := fun {id value} found => ?_
      complete := fun id listed => complete id (.inl listed) }
  · have created : (context.module.create (functionDraft name tensors)
        (.atEnd Module.body)).2.op? ⟨context.module.ops.size⟩ = some _ := Module.op?_create_self
    rw [ops] at created
    refine ⟨_, created, rfl, rfl, ?_⟩
    simp [functionDraft, Module.freshBlocks, blocks]
  · have created : (context.module.create (functionDraft name tensors)
        (.atEnd Module.body)).2.block? ⟨context.module.blocks.size⟩ = some _ :=
      Module.block?_create_region body rfl
    rw [ops, blocks] at created
    exact created
  · rcases entries id value found with ⟨place, tensor, listed, same, argument⟩ | old
    · exact ⟨place, tensor, listed, same, by rw [argument, Nat.zero_add]⟩
    · have none := blank.unstored id
      rw [show context.storage.find? id = some value from old] at none
      cases none

end BuildM

namespace Context.Hosts

variable {name : String} {tensors : List Tensor} {context : Context} {buffers : List Buffer}

theorem ends (hosts : context.Hosts name tensors) : context.AtEnds := by
  intro point inside
  rw [hosts.stack] at inside
  simp only [List.mem_cons, List.not_mem_nil, or_false] at inside
  rcases inside with rfl | rfl <;> rfl

theorem rooted (hosts : context.Hosts name tensors) : context.Rooted := by
  have body : 1 < context.module.blocks.size := Module.index_lt_of_block? hosts.body
  rintro block ⟨point, listed, rfl⟩
  rw [hosts.stack] at listed
  simp only [List.mem_cons, List.not_mem_nil, or_false] at listed
  rcases listed with rfl | rfl
  · exact body
  · exact Nat.lt_trans Nat.zero_lt_one body

/-- The run of a function starts in a frame that represents the context of its body. -/
theorem represents {nodes : Expr → Prop} (hosts : context.Hosts name tensors)
    (distinct : (tensors.map Tensor.id).Nodup) (accepted : Tensor.AcceptAll tensors buffers)
    (known : ∀ {expr : Expr} {tensor : Tensor}, nodes expr → expr.tensor? = some tensor →
      ∀ arg ∈ tensors, arg.id = tensor.id → arg = tensor) (heap : Array Buffer) :
    Represents nodes (.ofCall tensors buffers heap.size) context
      (Frame.enter [] ⟨1⟩ (handles heap.size buffers.length)) (heap ++ buffers.toArray) where
  entered := by simp [Frame.enter]
  bound := by
    intro expr value _ bound
    rw [hosts.unbound] at bound
    cases bound
  stored := by
    intro id value found
    obtain ⟨place, tensor, listed, rfl, rfl⟩ := hosts.stored found
    have small : place < buffers.length := by
      rw [accepted.count]
      exact (List.getElem?_eq_some_iff.mp listed).1
    have given : buffers[place]? = some buffers[place] := List.getElem?_eq_getElem small
    have key : (tensors.map Tensor.id)[place]? = some tensor.id := by simp [listed]
    refine ⟨heap.size + place, buffers[place], ?_⟩
    refine
      { found := Frame.find?_enter_arg (by simp [handles, small])
        placed := Table.find?_zip distinct key (by simp [small])
        held := by simp [small]
        known := Table.find?_zip distinct key given
        typed := ?_ }
    exact ⟨.memref tensor.shape tensor.dtype,
      by simp [Module.valueType?, hosts.body, parameters, listed]⟩
  fits := by
    intro expr tensor buffer member used held
    obtain ⟨place, key, given⟩ := Table.exists_of_find?_zip held
    rw [List.getElem?_map, Option.map_eq_some_iff] at key
    obtain ⟨arg, listed, same⟩ := key
    obtain rfl := known member used arg (List.mem_of_getElem? listed) same
    exact (accepted.each listed given).fits

end Context.Hosts

/-! ## Calls -/

/-- The first operation is found by its name. -/
theorem Module.function?_first {module : Module} {op : Operation} {name : String}
    (found : module.op? ⟨0⟩ = some op) (kind : op.kind = .func)
    (named : op.attr? "sym_name" = some (.str name)) : module.function? name = some ⟨0⟩ := by
  obtain ⟨count, size⟩ : ∃ count, module.size = count + 1 :=
    Nat.exists_eq_add_one_of_ne_zero (Nat.ne_of_gt (Module.index_lt_of_op? found))
  have first : module.opsOfKind .func = ⟨0⟩ :: ((((List.range count).map Nat.succ).map
      OpId.mk).filter fun id => (module.op? id).any (fun op => op.kind = .func)) := by
    simp [Module.opsOfKind, size, List.range_succ_eq_map, found, kind]
  have matching : ((module.op? ⟨0⟩).bind (·.attr? "sym_name")).bind (·.asText?) = some name := by
    simp [found, named, Attribute.asText?]
  rw [Module.function?, first, List.find?_cons_of_pos (by simpa using matching)]

namespace Machine

/-- A reply is what a meaning says: results and buffers, or a failure that leaves the buffers as
they were given. -/
def Reply.Answers (reply : Reply) (given : List Buffer) :
    Except Fault (List Scalar × List Buffer) → Prop
  | .ok (results, buffers) => reply.results = .ok results ∧ reply.buffers = buffers
  | .error fault =>
    fault ≠ .meaningless ∧ reply.buffers = given ∧
      ∃ error, reply.results = .error error ∧ error.fault = fault

theorem Reply.Answers.eq_of_ok {reply : Reply} {given buffers : List Buffer}
    {results : List Scalar} (answers : reply.Answers given (.ok (results, buffers))) :
    reply = ⟨.ok results, buffers⟩ :=
  congr (congrArg Reply.mk answers.1) answers.2

/-- What the operations of a function realize is what a call of it replies. -/
theorem call_answers {module : Module} {depth : Nat} {name : String} {buffers : List Buffer}
    {machine : Machine} {op : Operation} {block : Block} {body : BlockId}
    {meaning : Except Fault (List Scalar × List Buffer)}
    (found : module.op? ⟨0⟩ = some op) (kind : op.kind = .func)
    (named : op.attr? "sym_name" = some (.str name)) (regions : op.regions = [body])
    (listed : module.block? body = some block) (arity : buffers.length = block.args.length)
    (realizes : ∀ log, Realizes
      (advance (runOp module (runBlock module depth)) block.ops
        (Frame.enter [] body (handles machine.heap.size buffers.length))
        ⟨machine.heap ++ buffers.toArray, log⟩)
      meaning fun answer step last =>
        scalarResults ⟨0⟩ (step.values?.getD []) = .ok answer.1 ∧
          returned machine.heap.size buffers.length last.heap = answer.2) :
    (call module (depth + 1) name buffers machine).1.Answers buffers meaning := by
  have region : module.region? ⟨0⟩ 0 = some body := by simp [Module.region?, found, regions]
  have length : (handles machine.heap.size buffers.length).length = block.args.length := by
    simp [handles, arity]
  have ran : runFunction module (runBlock module (depth + 1)) ⟨0⟩ name
      (handles machine.heap.size buffers.length) ⟨machine.heap ++ buffers.toArray, machine.log⟩ =
        (advance (runOp module (runBlock module depth)) block.ops
          (Frame.enter [] body (handles machine.heap.size buffers.length)) >>= fun step =>
            pure (step.values?.getD []))
          ⟨machine.heap ++ buffers.toArray, machine.log.push (.interpret name
            (handles machine.heap.size buffers.length).length)⟩ := by
    rw [runFunction_apply region listed length]
    simp only [runBlock, listed, require, pure_bind, runOps_eq, bind_map_left]
  rw [call_apply (Module.function?_first found kind named), ran]
  obtain ⟨proper, delivers⟩ := realizes (machine.log.push (.interpret name
    (handles machine.heap.size buffers.length).length))
  simp only [bind, EStateM.bind]
  cases outcome : advance (runOp module (runBlock module depth)) block.ops
      (Frame.enter [] body (handles machine.heap.size buffers.length))
      ⟨machine.heap ++ buffers.toArray, machine.log.push (.interpret name
        (handles machine.heap.size buffers.length).length)⟩ with
  | ok step last =>
      rw [outcome] at delivers
      cases meaning with
      | ok answer => exact delivers
      | error fault => exact delivers.elim
  | error error last =>
      rw [outcome] at delivers
      cases meaning with
      | ok answer => exact delivers.elim
      | error fault =>
          refine ⟨fun same => proper (congrArg _ same), rfl, error, rfl, delivers⟩

/-- The buffers of a call, found on the heap item by item. -/
theorem returned_eq {α : Type} {item : α → Option Buffer} {items : List α} {base : Nat}
    {heap : Array Buffer}
    (held : ∀ position < items.length, heap[base + position]? = items[position]?.bind item) :
    returned base items.length heap = items.filterMap item := by
  induction items generalizing base with
  | nil => rfl
  | cons first rest ih =>
      have later : returned (base + 1) rest.length heap = rest.filterMap item := by
        refine ih fun position small => ?_
        rw [Nat.add_right_comm, Nat.add_assoc]
        exact held (position + 1) (Nat.succ_lt_succ small)
      have now : heap[base + 0]? = item first := held 0 (Nat.succ_pos _)
      have rest_eq : (List.range rest.length).filterMap
          ((fun position => heap[base + position]?) ∘ Nat.succ) = rest.filterMap item := by
        rw [← later]
        simp only [returned, Function.comp_def, Nat.succ_eq_add_one, Nat.add_right_comm base 1,
          Nat.add_assoc]
      rw [returned, List.length_cons, List.range_succ_eq_map, List.filterMap_cons, now,
        List.filterMap_map, rest_eq, List.filterMap_cons]

/-- The buffers of a call that has stored nothing, and may have allocated. -/
theorem returned_append (heap extra : Array Buffer) (buffers : List Buffer) :
    returned heap.size buffers.length (heap ++ buffers.toArray ++ extra) = buffers := by
  refine (returned_eq fun position small => ?_).trans List.filterMap_some
  rw [Array.getElem?_append_left (by simp; omega), Array.getElem?_append_right (by omega)]
  simp

end Machine

/-- What the operations of a function realize is what a call of it by its name replies. -/
theorem Context.Hosts.answers {name : String} {tensors : List Tensor} {context : Context}
    (hosts : context.Hosts name tensors) {module : Module} {ops : List OpId} {depth : Nat}
    {buffers : List Buffer} {machine : Machine}
    {meaning : Except Fault (List Scalar × List Buffer)}
    (extends_ : context.module.Extends module)
    (listed : module.block? ⟨1⟩ = some ⟨parameters tensors, ops, some ⟨0⟩⟩)
    (count : buffers.length = tensors.length)
    (realizes : ∀ log, Machine.Realizes
      (Machine.advance (Machine.runOp module (Machine.runBlock module depth)) ops
        (Frame.enter [] ⟨1⟩ (handles machine.heap.size buffers.length))
        ⟨machine.heap ++ buffers.toArray, log⟩)
      meaning fun answer step last =>
        Machine.scalarResults ⟨0⟩ (step.values?.getD []) = .ok answer.1 ∧
          Machine.returned machine.heap.size buffers.length last.heap = answer.2) :
    (Machine.call module (depth + 1) name buffers machine).1.Answers buffers meaning := by
  obtain ⟨op, found, kind, named, regions⟩ := hosts.func
  refine Machine.call_answers (extends_.op? found) kind named regions listed ?_ realizes
  simp [parameters, count]

/-! ## Function statements -/

namespace Session

/-- The session before any statement. -/
def fresh (mode : BuildMode) : Session := .start (.start mode .empty #[]) .empty

theorem fresh_traced (mode : BuildMode) : (fresh mode).Traced .empty fun _ _ => True where
  within := ⟨.empty, .refl _, Context.start_upholds mode _, fun _ _ found => by cases found⟩
  functions := by
    intro id op found
    simp [fresh, start, Context.start, Context.savePoint, Context.emit, Module.op?,
      Module.empty] at found

theorem fresh_blank (mode : BuildMode) : (fresh mode).context.Blank :=
  ⟨rfl, rfl, fun _ => rfl, fun _ => rfl⟩

end Session

theorem Context.Blank.rests {before after : Context} (blank : before.Blank)
    (rests : before.Rests after) : after.Blank where
  module := rests.module.trans blank.module
  stack := rests.stack.trans blank.stack
  unbound id := by
    rw [Context.binding?, rests.bindings]
    exact blank.unbound id
  unstored id := by
    rw [rests.storage]
    exact blank.unstored id

theorem Context.Hosts.rests {name : String} {tensors : List Tensor} {before after : Context}
    (hosts : before.Hosts name tensors) (rests : before.Rests after) :
    after.Hosts name tensors where
  func := rests.module ▸ hosts.func
  body := rests.module ▸ hosts.body
  stack := rests.stack.trans hosts.stack
  unbound id := by
    rw [Context.binding?, rests.bindings]
    exact hosts.unbound id
  stored found := hosts.stored (rests.storage ▸ found)
  complete := rests.storage ▸ hosts.complete

/-- What a variable holds is not an operation that was named since. -/
theorem Session.expr_of_assign {session : Session} {name : Option String} {id : OpId}
    {result : String} {expr : Expr}
    (holds : (Session.assign name (.op id) session).2.vars.expr result = .ok expr) :
    session.vars.expr result = .ok expr := by
  cases name with
  | none => exact holds
  | some name =>
      have inserted : (session.vars.insert name (.op id)).find? result =
          if name = result then some (.op id) else session.vars.find? result :=
        Table.find?_insert ..
      have assigned : (Session.assign (some name) (.op id) session).2.vars =
          session.vars.insert name (.op id) := rfl
      rw [assigned, Variables.expr, inserted] at holds
      rw [Variables.expr]
      by_cases same : name = result
      · rw [if_pos same] at holds
        cases holds
      · rwa [if_neg same] at holds

/-- The steps of a function that is the first operation of its module: its body is entered, runs,
and its end is built. -/
structure Session.Runs (name : String) (tensors : List Tensor) (result : Option String)
    (body : List Statement) (session opened done last : Session) : Prop where
  begun : attempt (BuildM.beginFunction name tensors) session = (.ok (⟨0⟩, ⟨1⟩), opened)
  hosts : (opened.inside ⟨1⟩).context.Hosts name tensors
  mode : opened.context.mode = session.context.mode
  nextId : opened.context.nextId = session.context.nextId
  vars : opened.vars = session.vars
  ran : ∃ records, runBody body (opened.inside ⟨1⟩) = ((records, none), done)
  ended : attempt (BuildM.endFunction (result.bind fun name => (done.vars.expr name).toOption))
    done = (.ok (), last)

namespace Session

variable {label : Label} {name : String} {args : List String} {result : Option String}
  {body : List Statement} {session final opened done last : Session} {record : Record}
  {tensors : List Tensor}

/-- A function statement that has ended well has gone through these steps. -/
theorem runs_of_ended
    (ran : runStatement (.function label name args result body) session = (record, final))
    (ended : record.failure = none) (resolved : args.mapM session.vars.tensor = .ok tensors)
    (blank : session.context.Blank) :
    ∃ opened done last, Runs name tensors result body session opened done last ∧
      final = (assign label.name (.op ⟨0⟩) (last.leaving opened.context.mark)).2 := by
  have whole : runStatement (.function label name args result body) session =
      Session.record (runFunction label name args result (runBody body) session).1
        (runFunction label name args result (runBody body) session).2 := rfl
  rw [whole] at ran
  have clean : (runFunction label name args result (runBody body) session).1.2 = none :=
    Eq.trans (congrArg (fun pair => pair.1.failure) ran) ended
  obtain ⟨op, block, opened, records, done, last, begun, bodyRan, closed, same⟩ :=
    runFunction_ok resolved clean
  obtain ⟨made, mode, nextId, hosts⟩ :=
    attempt_ok (BuildM.beginFunction_hosts name tensors blank) begun
  cases made
  refine ⟨opened, done, last,
    ⟨begun, hosts, mode, nextId, attempt_vars begun, ⟨records, bodyRan⟩, closed⟩, ?_⟩
  exact Eq.trans (congrArg Prod.snd ran).symm same

/-- Everything that is there at the end of the body was constructed. -/
theorem Runs.traced (runs : Runs name tensors result body session opened done last)
    {args : List String} (resolved : args.mapM session.vars.tensor = .ok tensors) {base : Pool}
    (traced : session.Traced base fun _ _ => True) : done.Traced base fun _ _ => True := by
  obtain ⟨records, ran⟩ := runs.ran
  have ended := runBody_traced body (fun _ _ _ => trivial)
    (traced.insideFunction resolved runs.begun trivial)
  rwa [ran] at ended

/-- A body that only constructs leaves the function empty. -/
theorem Runs.done_hosts (runs : Runs name tensors result body session opened done last)
    (constructs : body.all Statement.constructs = true)
    (deferred : session.context.mode = .deferred) : done.context.Hosts name tensors := by
  obtain ⟨records, ran⟩ := runs.ran
  have rests := runBody_defers constructs (opened.inside ⟨1⟩) (runs.mode.trans deferred)
  rw [ran] at rests
  exact runs.hosts.rests rests

end Session

end AffineKernel
