import AffineKernel.Proofs.Build.Sharing
import AffineKernel.Proofs.Modes.Matching

/-!
# Operations of plain nodes

A plain node is built in two steps: its operands are built, and its operations
are created over their values (`BuildM.emitNode`). The operations are pure, so
neither step is noticed by the module of the other mode. The value of the last
one shows the tree that the node forms over the trees of its operands
(`BuildM.emitNode_forms`). In aligned contexts with matching bindings this is
the same tree (`Context.Twinned.forms_eq`): what a node forms depends on the
storage of a tensor and on loop variables, which both contexts have.
-/

set_option autoImplicit false

namespace AffineKernel

open Context

/-- What computes from scalars alone is pure. -/
theorem OpKind.isPure_of_computes {kind : OpKind} {attributes : List (String × Attribute)}
    (computes : kind.computes = true) (load : kind ≠ .load) : kind.isPure attributes = true := by
  cases kind <;> first | rfl | exact absurd rfl load | cases computes

theorem OpKind.computes_of_signature {kind : OpKind} (plain : kind.signature.isPlain = true)
    (alloc : kind.signature ≠ .alloc) (load : kind.signature ≠ .load)
    (store : kind.signature ≠ .store)
    (call : kind.signature ≠ .call) : kind.computes = true ∧ kind ≠ .load ∧ kind ≠ .call := by
  cases kind <;> simp_all [signature, Signature.isPlain, computes]

theorem UnaryKind.lower_computes (kind : UnaryKind) :
    kind.lower.computes = true ∧ kind.lower ≠ .load ∧ kind.lower ≠ .call := by
  cases kind <;> exact ⟨rfl, by simp [lower], by simp [lower]⟩

theorem OpKind.compareFor_computes (category : Category) :
    (compareFor category).computes = true ∧ compareFor category ≠ .load ∧
      compareFor category ≠ .call := by
  cases category <;> exact ⟨rfl, by simp [compareFor], by simp [compareFor]⟩

theorem castKind_computes (source target : DType) :
    (castKind source target).computes = true ∧ castKind source target ≠ .load ∧
      castKind source target ≠ .call :=
  OpKind.computes_of_signature (by rw [castKind_signature]; rfl) (by simp [castKind_signature])
    (by simp [castKind_signature]) (by simp [castKind_signature]) (by simp [castKind_signature])

theorem BinaryKind.lower_computes {kind : BinaryKind} {dtype : DType} {op : OpKind}
    (lowered : kind.lower dtype = .ok op) : op.computes = true ∧ op ≠ .load ∧ op ≠ .call := by
  have signature := BinaryKind.lower_signature lowered
  exact OpKind.computes_of_signature (by rw [signature]; rfl) (by simp [signature])
    (by simp [signature]) (by simp [signature]) (by simp [signature])

theorem ReduceKind.combine_computes (kind : ReduceKind) (dtype : DType) :
    (kind.combine dtype).computes = true ∧ kind.combine dtype ≠ .load ∧
      kind.combine dtype ≠ .call := by
  have signature := ReduceKind.combine_signature kind dtype
  exact OpKind.computes_of_signature (by rw [signature]; rfl) (by simp [signature])
    (by simp [signature]) (by simp [signature]) (by simp [signature])

namespace Context

variable {permit : Permit} {pool : Pool} {next : NodeId} {context first second : Context}
    {expr : Expr}
  {tree partner : Tree} {trees : List Tree}

/-- Whatever a context holds has a tree. -/
structure Shown (context : Context) : Prop where
  stored : ∀ {id : NodeId} {value : Value}, context.storage.find? id = some value →
    ∃ tree, context.module.Shows tree value
  bound : ∀ {id : NodeId} {value : Value}, context.binding? id = some (.value value) →
    ∃ tree, context.module.Shows tree value

namespace Twinned

theorem left (twinned : Twinned permit pool first second) : first.Shown where
  stored found := by
    rcases twinned.aligned.stored _ with ⟨here, -⟩ | ⟨_, _, here, -, tree, shows_, -⟩
    · rw [found] at here
      cases here
    · cases found.symm.trans here
      exact ⟨tree, shows_⟩
  bound := twinned.matched.shown

theorem right (twinned : Twinned permit pool first second) : second.Shown where
  stored found := by
    rcases twinned.aligned.stored _ with ⟨-, there⟩ | ⟨_, _, -, there, tree, -, shows_⟩
    · rw [found] at there
      cases there
    · cases found.symm.trans there
      exact ⟨tree, shows_⟩
  bound := twinned.matched.alsoShown

/-- Loop variables that both contexts bind have the same trees. -/
theorem counts_eq (twinned : Twinned permit pool first second) {refs : List LoopRef}
    {counters others : List Tree} (counts : first.Counts refs counters)
    (also : second.Counts refs others) : counters = others := by
  induction counts generalizing others with
  | nil =>
      cases also
      rfl
  | cons here _ ih =>
      cases also with
      | cons there rest =>
          obtain ⟨value, found, shows_⟩ := here
          obtain ⟨other, known, alsoShows⟩ := there
          cases twinned.matched.twins found known with
          | value twins =>
              obtain ⟨tree, left, right⟩ := twins
              rw [Module.Shows.unique _ _ shows_ left, Module.Shows.unique _ _ alsoShows right,
                ih rest]

/-- A node forms the same tree in both contexts. -/
theorem forms_eq (twinned : Twinned permit pool first second) (forms : first.Forms expr trees tree)
    (also : second.Forms expr trees partner) : tree = partner := by
  unfold Forms at forms also
  split at forms
  case h_3 =>
    obtain ⟨op, lowered, rfl⟩ := forms
    obtain ⟨_, again, rfl⟩ := also
    cases lowered.symm.trans again
    rfl
  case h_4 =>
    obtain ⟨dtype, typed, rfl⟩ := forms
    obtain ⟨_, again, rfl⟩ := also
    cases typed.symm.trans again
    rfl
  case h_5 =>
    obtain ⟨source, typed, rfl⟩ := forms
    obtain ⟨_, again, rfl⟩ := also
    cases typed.symm.trans again
    rfl
  case h_6 =>
    obtain ⟨memref, target, map, refs, counters, stored, shows_, read, counts, rfl⟩ := forms
    obtain ⟨_, _, _, _, _, known, alsoShows, again, others, rfl⟩ := also
    cases read.symm.trans again
    obtain ⟨shared, left, right⟩ := twinned.aligned.twins stored known
    rw [Module.Shows.unique _ _ shows_ left, Module.Shows.unique _ _ alsoShows right,
      twinned.counts_eq counts others]
  case h_9 => exact forms.elim
  all_goals exact forms.trans also.symm

end Twinned

end Context

namespace BuildM

variable {α : Type} {permit : Permit} {pool : Pool} {next : NodeId} {context after : Context}
    {expr : Expr}
  {value : Value} {values : List Value} {trees : List Tree}

/-! ## Single operations -/

theorem create_ok {draft : OpDraft} {id : OpId} (made : create draft context = .ok id after) :
    ∃ point rest, context.stack = point :: rest ∧ id = ⟨context.module.ops.size⟩ ∧
      after = ({ context with module := (context.module.create draft point).2 }.emit
        (.createOperation ⟨context.module.ops.size⟩ draft.kind point.block)) := by
  have created : Ensures (create draft) context (fun id after => ∃ point rest,
      context.stack = point :: rest ∧ id = ⟨context.module.ops.size⟩ ∧
      after = ({ context with module := (context.module.create draft point).2 }.emit
        (.createOperation ⟨context.module.ops.size⟩ draft.kind point.block))) fun _ => True :=
    ensures_create (fun point rest stack => ⟨point, rest, stack, rfl, rfl⟩) fun _ => trivial
  exact created.of_ok made

/-- A pure operation over values with trees. -/
theorem createValue_shows {kind : OpKind} {type : ValueType}
    {attributes : List (String × Attribute)}
    (made : createValue kind values type attributes context = .ok value after)
    (pure : kind.isPure attributes = true)
    (allows : context.Allows permit { kind, operands := values, results := [type], attributes })
    (shows_ : context.module.ShowsAll trees values) :
    Enriches permit context after ∧
      after.module.Shows (.pure kind attributes [type] trees) value := by
  obtain ⟨id, middle, created, same⟩ := EStateM.bind_eq_ok made
  cases same
  obtain ⟨point, rest, stack, rfl, rfl⟩ := create_ok created
  have retains := Module.Retains.create context.module
    { kind, operands := values, results := [type], attributes } point
  exact ⟨.log _ (.create .refl stack pure rfl allows), _, _, rfl, Module.op?_create_self, rfl,
    pure, rfl, rfl, rfl, retains.showsAll trees shows_⟩

/-- An operation on scalars. -/
theorem createScalar_enriches {kind : OpKind} {dtype : DType}
    {attributes : List (String × Attribute)}
    (made : createValue kind values (.scalar dtype) attributes context = .ok value after)
    (computes : kind.computes = true ∧ kind ≠ .load ∧ kind ≠ .call)
    (shows_ : context.module.ShowsAll trees values) :
    Enriches permit context after ∧
      after.module.Shows (scalarTree kind attributes dtype trees) value :=
  createValue_shows made (OpKind.isPure_of_computes computes.1 computes.2.1)
    (.of_kind computes.2.1 (by rintro rfl; cases computes.1) computes.2.2) shows_

theorem emitCast_enriches {source target : DType} {operand : Value} {tree : Tree}
    (shows_ : context.module.Shows tree operand)
    (made : emitCast operand source target context = .ok value after) :
    after.module.Shows (if source = target then tree
        else scalarTree (castKind source target) [] target [tree]) value ∧ Enriches permit context
          after := by
  rw [emitCast] at made
  split at made
  · rename_i same
    cases made
    rw [if_pos same]
    exact ⟨shows_, .refl⟩
  · rename_i different
    rw [if_neg different]
    have all : context.module.ShowsAll [tree] [operand] := ⟨operand, [], rfl, shows_, rfl⟩
    exact (createScalar_enriches made (castKind_computes _ _) all).symm

theorem emitBinary_forms {id : NodeId} {kind : BinaryKind} {dtype : DType} {lhs rhs : Expr}
    {left right : Value} {a b : Tree}
    (shows_ : context.module.ShowsAll [a, b] [left, right])
    (made : emitBinary kind dtype left right context = .ok value after) :
    ∃ tree, context.Forms (.binary id dtype kind lhs rhs) [a, b] tree ∧
      after.module.Shows tree value ∧ Enriches permit context after := by
  rw [emitBinary] at made
  cases lowered : kind.lower dtype with
  | error error =>
      rw [lowered] at made
      cases made
  | ok op =>
      rw [lowered] at made
      change (createValue op [left, right] (.scalar dtype) [] >>= _) context = _ at made
      obtain ⟨result, middle, first, made⟩ := EStateM.bind_eq_ok made
      obtain ⟨enriches, shown⟩ : Enriches permit context middle ∧ _ :=
        createScalar_enriches first (BinaryKind.lower_computes lowered) shows_
      by_cases floors : kind = .floorDiv ∧ dtype.isFloat
      · rw [if_pos floors] at made
        have all : middle.module.ShowsAll [scalarTree op [] dtype [a, b]] [result] :=
          ⟨result, [], rfl, shown, rfl⟩
        obtain ⟨more, floored⟩ := createScalar_enriches made ⟨rfl, by simp, by simp⟩ all
        exact ⟨_, ⟨op, lowered, (if_pos floors).symm⟩, floored, enriches.trans more⟩
      · rw [if_neg floors] at made
        cases made
        exact ⟨_, ⟨op, lowered, (if_neg floors).symm⟩, shown, enriches⟩

/-! ## Plain nodes -/

/-- Creates the operations of a plain node over the values of its operands. -/
def emitNode : Expr → List Value → BuildM Value
  | .constant _ dtype value, [] => emitConstant value dtype
  | .unary _ dtype kind _, [x] => createValue kind.lower [x] (.scalar dtype) []
  | .binary _ dtype kind _ _, [a, b] => emitBinary kind dtype a b
  | .compare _ kind lhs _, [a, b] => do emitCompare kind (← valueType lhs) a b
  | .cast _ dtype source, [x] => do emitCast x (← valueType source) dtype
  | .load _ tensor indices, [] => emitLoad tensor indices
  | .select _ dtype _ _ _, [c, t, e] => createValue .select [c, t, e] (.scalar dtype) []
  | .getBit .., [v, b] => createValue .getBit [v, b] (.scalar .bool) []
  | other, _ => throw (.noValue other.name)

theorem onceValue_ok {id : NodeId} {name : String} {action : BuildM Value} {binding : Binding}
    (built : onceValue id name action context = .ok binding after) :
    (context.binding? id = some binding ∧ after = context) ∨
      (context.binding? id = none ∧ ∃ value last,
        action (context.emit (.materialize id name)) = .ok value last ∧
        binding = .value value ∧ after = last.bind id (.value value)) := by
  simp only [onceValue, once, EStateM.get_bind_apply] at built
  cases bound : context.binding? id with
  | some known =>
      rw [bound] at built
      cases built
      exact .inl ⟨rfl, rfl⟩
  | none =>
      rw [bound] at built
      obtain ⟨_, started, logged, built⟩ := EStateM.bind_eq_ok built
      cases logged
      obtain ⟨made, last, ran, built⟩ := EStateM.bind_eq_ok built
      cases built
      rw [← bind_pure_comp] at ran
      obtain ⟨value, final, ran, same⟩ := EStateM.bind_eq_ok ran
      cases same
      exact .inr ⟨rfl, value, last, ran, rfl, rfl⟩

/-- A plain node is built by building its operands and creating its operations; only a node over
nodes without a value fails before. -/
theorem build_plain (plain : expr.isPlain = true) :
    (∃ error, build expr = onceValue expr.id expr.name (throw error)) ∨
      build expr = onceValue expr.id expr.name
        (expr.valueOperands.mapM buildValue >>= emitNode expr) := by
  cases expr with
  | compare id kind lhs rhs =>
      rw [build]
      cases typed : lhs.dtype? with
      | none =>
          left
          refine ⟨.noValue lhs.name, congrArg _ ?_⟩
          rw [valueType, typed]
          rfl
      | some dtype =>
          right
          simp [valueType, typed, Expr.valueOperands, Expr.operands, buildValue, emitNode,
            Expr.name, Expr.id]
  | cast id dtype source =>
      rw [build]
      cases typed : source.dtype? with
      | none =>
          left
          refine ⟨.noValue source.name, congrArg _ ?_⟩
          rw [valueType, typed]
          rfl
      | some dtype =>
          right
          simp [valueType, typed, Expr.valueOperands, Expr.operands, buildValue, emitNode,
            Expr.name, Expr.id]
  | constant | unary | binary | load | select | getBit =>
      right
      rw [build]
      simp [Expr.valueOperands, Expr.operands, buildValue, emitNode, Expr.name, Expr.id]
  | loopVar | axis | store | call | reduce => cases plain

/-- What building a plain node does. -/
theorem build_plain_ok {binding : Binding} (plain : expr.isPlain = true)
    (built : build expr context = .ok binding after) :
    (context.binding? expr.id = some binding ∧ after = context) ∨
      (context.binding? expr.id = none ∧ ∃ values middle value last,
        expr.valueOperands.mapM buildValue (context.emit (.materialize expr.id expr.name)) =
          .ok values middle ∧
        emitNode expr values middle = .ok value last ∧ binding = .value value ∧
        after = last.bind expr.id (.value value)) := by
  rcases build_plain plain with ⟨error, same⟩ | same
  · rw [same] at built
    refine (onceValue_ok built).imp_right ?_
    rintro ⟨-, value, last, failed, -⟩
    cases failed
  · rw [same] at built
    refine (onceValue_ok built).imp_right ?_
    rintro ⟨unbound, value, last, ran, rfl, rfl⟩
    obtain ⟨values, middle, made, ran⟩ := EStateM.bind_eq_ok ran
    exact ⟨unbound, values, middle, value, last, made, ran, rfl, rfl⟩

theorem valueType_ok {dtype : DType} (typed : valueType expr context = .ok dtype after) :
    expr.dtype? = some dtype ∧ after = context := by
  rw [valueType] at typed
  cases found : expr.dtype? with
  | none =>
      rw [found] at typed
      cases typed
  | some known =>
      rw [found] at typed
      cases typed
      exact ⟨rfl, rfl⟩

theorem storageOf_ok {tensor : Tensor} (found : storageOf tensor context = .ok value after) :
    context.storage.find? tensor.id = some value ∧ after = context := by
  rw [storageOf, EStateM.get_bind_apply] at found
  cases stored : context.storage? tensor with
  | none =>
      rw [stored] at found
      cases found
  | some memref =>
      rw [stored] at found
      cases found
      exact ⟨stored, rfl⟩

/-- The operands of an access have trees. -/
theorem affineAccess_counts {indices : List Expr} {map : AffineMap} (shown : context.Shown)
    (read : affineAccess indices context = .ok (map, values) after) :
    ∃ refs counters, Extraction.access indices [] = .ok map refs ∧
      after = context.emit (.affineAccess refs.length indices.length) ∧
      context.Counts refs counters ∧ context.module.ShowsAll counters values := by
  obtain ⟨refs, extracted, rfl, bound⟩ := (affineAccess_reads indices context).of_ok read
  refine ⟨refs, ?_⟩
  suffices ∃ counters, context.Counts refs counters ∧ context.module.ShowsAll counters values by
    obtain ⟨counters, counts, all⟩ := this
    exact ⟨counters, extracted, rfl, counts, all⟩
  clear extracted read
  induction refs generalizing values with
  | nil =>
      obtain rfl : values = [] := by simpa using bound.symm
      exact ⟨[], .nil, rfl⟩
  | cons ref rest ih =>
      cases values with
      | nil => simp at bound
      | cons value others =>
          simp only [List.map_cons, List.cons.injEq] at bound
          obtain ⟨counters, counts, all⟩ := ih bound.2
          have found := binding?_of_loopValue? bound.1
          obtain ⟨tree, shows_⟩ := shown.bound found
          exact ⟨tree :: counters, .cons ⟨value, found, shows_⟩ counts, value, others, rfl, shows_,
            all⟩

theorem emitLoad_forms {id : NodeId} {tensor : Tensor} {indices : List Expr} (shown : context.Shown)
    (may : permit.loads tensor)
    (made : emitLoad tensor indices context = .ok value after) :
    ∃ tree, context.Forms (.load id tensor indices) [] tree ∧ after.module.Shows tree value ∧
      Enriches permit context after := by
  obtain ⟨memref, middle, found, loaded⟩ := EStateM.bind_eq_ok made
  obtain ⟨stored, rfl⟩ := storageOf_ok found
  obtain ⟨⟨map, operands⟩, between, read, created⟩ := EStateM.bind_eq_ok loaded
  obtain ⟨refs, counters, extracted, rfl, counts, all⟩ := affineAccess_counts shown read
  obtain ⟨target, shows_⟩ := shown.stored stored
  have pure : OpKind.load.isPure (accessAttributes map tensor.name) = true := by
    have symbols := (Extraction.access_shape extracted).2.1
    simp [OpKind.isPure, accessAttributes, Attribute.asMap?, symbols]
  have allows : (middle.emit (.affineAccess refs.length indices.length)).Allows permit
      { kind := .load, operands := memref :: operands, results := [.scalar tensor.dtype],
        attributes := accessAttributes map tensor.name } := by
    refine ⟨fun _ _ value same => ?_, nofun, nofun⟩
    cases same
    exact ⟨tensor, may, stored⟩
  have whole : middle.module.ShowsAll (target :: counters) (memref :: operands) :=
    ⟨memref, operands, rfl, shows_, all⟩
  obtain ⟨enriches, shown⟩ := createValue_shows created pure allows whole
  exact ⟨_, ⟨memref, target, map, refs, counters, stored, shows_, extracted, counts, rfl⟩, shown,
    .trans (.log _ .refl) enriches⟩

/-- The operations of a node over values with trees yield a value with the tree that the node forms
over these trees. -/
theorem emitNode_forms (shown : context.Shown) (records : permit.Records expr)
    (shows_ : context.module.ShowsAll trees values)
    (made : emitNode expr values context = .ok value after) :
    ∃ tree, context.Forms expr trees tree ∧ after.module.Shows tree value ∧ Enriches permit context
      after := by
  have same := shows_.length
  unfold emitNode at made
  split at made
  · obtain rfl := List.length_eq_zero_iff.mp same
    obtain ⟨enriches, shown⟩ := createScalar_enriches made ⟨rfl, by simp, by simp⟩ shows_
    exact ⟨_, rfl, shown, enriches⟩
  · obtain ⟨x, rfl⟩ := List.length_eq_one_iff.mp same
    obtain ⟨enriches, shown⟩ := createScalar_enriches made (UnaryKind.lower_computes _)
      shows_
    exact ⟨_, rfl, shown, enriches⟩
  · obtain ⟨a, b, rfl⟩ := List.length_eq_two.mp same
    obtain ⟨tree, forms, shown, enriches⟩ := emitBinary_forms shows_ made
    exact ⟨tree, forms, shown, enriches⟩
  · obtain ⟨a, b, rfl⟩ := List.length_eq_two.mp same
    obtain ⟨dtype, middle, typed, created⟩ := EStateM.bind_eq_ok made
    obtain ⟨found, rfl⟩ := valueType_ok typed
    obtain ⟨enriches, shown⟩ := createScalar_enriches created (OpKind.compareFor_computes _)
      shows_
    exact ⟨_, ⟨dtype, found, rfl⟩, shown, enriches⟩
  · obtain ⟨x, rfl⟩ := List.length_eq_one_iff.mp same
    obtain ⟨dtype, middle, typed, created⟩ := EStateM.bind_eq_ok made
    obtain ⟨found, rfl⟩ := valueType_ok typed
    obtain ⟨shown, enriches⟩ := emitCast_enriches shows_.head created
    exact ⟨_, ⟨dtype, found, rfl⟩, shown, enriches⟩
  · obtain rfl := List.length_eq_zero_iff.mp same
    exact emitLoad_forms shown records made
  · obtain ⟨c, t, e, rfl⟩ := List.length_eq_three.mp same
    obtain ⟨enriches, shown⟩ := createScalar_enriches made ⟨rfl, by simp, by simp⟩ shows_
    exact ⟨_, rfl, shown, enriches⟩
  · obtain ⟨v, b, rfl⟩ := List.length_eq_two.mp same
    obtain ⟨enriches, shown⟩ := createScalar_enriches made ⟨rfl, by simp, by simp⟩ shows_
    exact ⟨_, rfl, shown, enriches⟩
  · cases made

end BuildM

end AffineKernel
