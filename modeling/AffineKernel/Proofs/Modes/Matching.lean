import AffineKernel.Proofs.Build.Runs
import AffineKernel.Proofs.Modes.Contexts

/-!
# Bindings of two modes

In the deferred mode a node is bound when it is built. In the in-place mode it
may be bound already when it is constructed, and then its value is ahead: the
first context of two aligned ones is behind the second. A value that is ahead
*renders* its node (`Context.Renders`): its tree is the one that the operations
of the node form over the trees of its operands, which are bound as well
(`Context.Forms`). So when the first context builds the node later on, over the
same operands, it arrives at a value with the same tree.

`Context.Matched` relates the bindings of the two contexts: a node that is bound
in the first one is bound in the second one, to a twin, and a node that is bound
in the second one only is rendered there. Axes of reductions are no exception to
the former as long as both contexts bind them; which of them a nest leaves
unbound is of no concern.
-/

set_option autoImplicit false

namespace AffineKernel

/-- Whether a node is a computation of one value from those of its operands, by pure operations. -/
def Expr.isPlain : Expr → Bool
  | .constant .. | .unary .. | .binary .. | .compare .. | .cast .. | .load .. | .select ..
  | .getBit .. => true
  | _ => false

theorem Expr.isAxis_of_isPlain {expr : Expr} (plain : expr.isPlain = true) : expr.isAxis =
    false := by
  cases expr <;> first | rfl | cases plain

/-- Values that are twins, or operations with the same regions. -/
inductive Binding.Match (module other : Module) : Binding → Binding → Prop where
  | value {value partner : Value} :
      Module.Twins module other value partner → Match module other (.value value) (.value partner)
  | op {id partner : OpId} :
      Module.Siblings module other id partner → Match module other (.op id) (.op partner)

theorem Binding.Match.grow {module other grown wider : Module} {binding partner : Binding}
    (matched : Binding.Match module other binding partner) (retains : module.Retains grown)
    (also : other.Retains wider) : Binding.Match grown wider binding partner := by
  cases matched with
  | value twins => exact .value (twins.grow retains also)
  | op siblings => exact .op (siblings.grow retains also)

namespace Context

variable {pool wider : Pool} {next : NodeId}
  {context before after first second : Context} {expr : Expr} {tree : Tree} {trees : List Tree}

/-- The tree of a scalar that a pure operation computes. -/
def scalarTree (kind : OpKind) (attributes : List (String × Attribute)) (dtype : DType)
    (operands : List Tree) : Tree :=
  .pure kind attributes [.scalar dtype] operands

/-- What loop variables are bound to has trees. -/
def Counts (context : Context) (refs : List LoopRef) (trees : List Tree) : Prop :=
  List.Forall₂ (fun ref tree => ∃ value, context.binding? ref.id = some (.value value) ∧
    context.module.Shows tree value) refs trees

/-- The tree that the operations of a node form over the trees of its operands. -/
def Forms (context : Context) : Expr → List Tree → Tree → Prop
  | .constant _ dtype value, [], tree =>
    tree = scalarTree .constant [("value", value.toAttribute dtype)] dtype []
  | .unary _ dtype kind _, [x], tree => tree = scalarTree kind.lower [] dtype [x]
  | .binary _ dtype kind _ _, [a, b], tree => ∃ op, kind.lower dtype = .ok op ∧
    tree = if kind = .floorDiv ∧ dtype.isFloat = true
      then scalarTree .floor [] dtype [scalarTree op [] dtype [a, b]]
      else scalarTree op [] dtype [a, b]
  | .compare _ kind lhs _, [a, b], tree => ∃ dtype, lhs.dtype? = some dtype ∧
    tree = scalarTree (.compareFor dtype.category) [("predicate", .int64 (kind.code dtype))] .bool
      [a, b]
  | .cast _ dtype source, [x], tree => ∃ sourceType, source.dtype? = some sourceType ∧
    tree = if sourceType = dtype then x else scalarTree (castKind sourceType dtype) [] dtype [x]
  | .load _ tensor indices, [], tree => ∃ memref target map refs counters,
    context.storage.find? tensor.id = some memref ∧ context.module.Shows target memref ∧
    Extraction.access indices [] = .ok map refs ∧ context.Counts refs counters ∧
    tree = scalarTree .load (BuildM.accessAttributes map tensor.name) tensor.dtype
      (target :: counters)
  | .select _ dtype _ _ _, [c, t, e], tree => tree = scalarTree .select [] dtype [c, t, e]
  | .getBit .., [v, b], tree => tree = scalarTree .getBit [] .bool [v, b]
  | _, _, _ => False

/-- The loop variables of an access are no axes. -/
def Level (pool : Pool) : Expr → Prop
  | .load _ _ indices => ∀ map refs, Extraction.access indices [] = .ok map refs →
    ∀ ref ∈ refs, pool.Plain ref.id
  | _ => True

/-- A node that is no axis is bound to a value with a tree. -/
def Bears (context : Context) (expr : Expr) (tree : Tree) : Prop :=
  expr.isAxis = false ∧ ∃ value, context.binding? expr.id = some (.value value) ∧
    context.module.Shows tree value

/-- A value is what the operations of a node form over the values of its operands, which are bound
as well. -/
def Renders (pool : Pool) (context : Context) (expr : Expr) (value : Value) : Prop :=
  ∃ tree trees, context.module.Shows tree value ∧ Level pool expr ∧
    List.Forall₂ context.Bears expr.valueOperands trees ∧ context.Forms expr trees tree

/-- What a context binds that are no axes, another one binds as well. -/
def Keeps (pool : Pool) (before after : Context) : Prop :=
  ∀ id binding, pool.Plain id → before.binding? id = some binding → after.binding? id = some binding

/-- Only plain nodes form trees. -/
theorem Forms.isPlain (forms : context.Forms expr trees tree) : expr.isPlain = true := by
  unfold Forms at forms
  split at forms <;> first | rfl | exact forms.elim

theorem Counts.bound {refs : List LoopRef} (counts : context.Counts refs trees) :
    ∀ ref ∈ refs, ∃ value, context.binding? ref.id = some (.value value) := by
  induction counts with
  | nil => simp
  | cons here _ ih =>
      obtain ⟨value, found, -⟩ := here
      exact List.forall_mem_cons.mpr ⟨⟨value, found⟩, ih⟩

/-- Where only nodes that are no axes are bound, an access is over such nodes. -/
theorem Forms.level (forms : context.Forms expr trees tree)
    (named : ∀ id binding, context.binding? id = some binding → pool.Plain id) :
    Level pool expr := by
  unfold Forms at forms
  split at forms
  case h_6 id tensor indices tree =>
    obtain ⟨memref, target, map, refs, counters, -, -, read, counts, -⟩ := forms
    intro other found again ref listed
    cases read.symm.trans again
    obtain ⟨value, bound⟩ := counts.bound ref listed
    exact named ref.id _ bound
  all_goals trivial

theorem Counts.mono {refs : List LoopRef} (counts : before.Counts refs trees)
    (plain : ∀ ref ∈ refs, pool.Plain ref.id) (keeps : Keeps pool before after)
    (grown : Grown before after) : after.Counts refs trees := by
  induction counts with
  | nil => exact .nil
  | @cons ref tree rest trees here _ ih =>
      obtain ⟨value, found, shows_⟩ := here
      refine .cons ⟨value, keeps _ _ (plain ref List.mem_cons_self) found,
        grown.module.shows tree shows_⟩ (ih fun other listed => plain other ?_)
      exact List.mem_cons_of_mem _ listed

theorem Forms.mono (forms : before.Forms expr trees tree) (level : Level pool expr)
    (keeps : Keeps pool before after) (grown : Grown before after) :
    after.Forms expr trees tree := by
  unfold Forms at forms ⊢
  split at forms
  case h_6 id tensor indices tree =>
    obtain ⟨memref, target, map, refs, counters, stored, shows_, read, counts, same⟩ := forms
    exact ⟨memref, target, map, refs, counters, grown.storage stored,
      grown.module.shows target shows_, read, counts.mono (level map refs read) keeps grown, same⟩
  all_goals exact forms

/-- The values of nodes stay. -/
theorem Bears.mono (bears : before.Bears expr tree) (member : pool.expr expr)
    (keeps : Keeps pool before after) (grown : Grown before after) : after.Bears expr tree := by
  obtain ⟨plain, value, found, shown⟩ := bears
  exact ⟨plain, value, keeps _ _ ⟨expr, member, rfl, plain⟩ found, grown.module.shows tree shown⟩

theorem bears_mono {nodes : List Expr} (members : ∀ operand ∈ nodes, pool.expr operand)
    (keeps : Keeps pool before after) (grown : Grown before after)
    (values : List.Forall₂ before.Bears nodes trees) : List.Forall₂ after.Bears nodes trees := by
  induction values with
  | nil => exact .nil
  | @cons operand tree rest trees here _ ih =>
      refine .cons (here.mono (members operand List.mem_cons_self) keeps grown) (ih ?_)
      exact fun other listed => members other (List.mem_cons_of_mem _ listed)

theorem Renders.mono {value : Value} (renders : Renders pool before expr value)
    (members : ∀ operand ∈ expr.valueOperands, pool.expr operand)
    (keeps : Keeps pool before after) (grown : Grown before after) :
    Renders pool after expr value := by
  obtain ⟨tree, trees, shows_, level, values, forms⟩ := renders
  exact ⟨tree, trees, grown.module.shows tree shows_, level,
    bears_mono members keeps grown values, forms.mono level keeps grown⟩

theorem Level.widen (level : Level pool expr) (le : pool.Le wider) : Level wider expr := by
  cases expr with
  | load id tensor indices =>
      intro map refs read ref listed
      obtain ⟨node, member, same, plain⟩ := level map refs read ref listed
      exact ⟨node, le.expr member, same, plain⟩
  | _ => trivial

theorem Renders.widen {value : Value} (renders : Renders pool context expr value)
    (le : pool.Le wider) :
    Renders wider context expr value := by
  obtain ⟨tree, trees, shows_, level, values, forms⟩ := renders
  exact ⟨tree, trees, shows_, level.widen le, values, forms⟩

/-! ## Matched contexts -/

/-- The bindings of a context and of one that is ahead of it. -/
structure Matched (pool : Pool) (first second : Context) : Prop where
  bound : ∀ {expr : Expr} {binding : Binding}, pool.expr expr → expr.isAxis = false →
    first.binding? expr.id = some binding → ∃ partner, second.binding? expr.id = some partner
  twins : ∀ {id : NodeId} {binding partner : Binding}, first.binding? id = some binding →
    second.binding? id = some partner → Binding.Match first.module second.module binding partner
  ahead : ∀ {expr : Expr} {partner : Binding}, pool.expr expr → expr.isAxis = false →
    first.binding? expr.id = none → second.binding? expr.id = some partner →
    ∃ value, partner = .value value ∧ Renders pool second expr value
  shown : ∀ {id : NodeId} {value : Value}, first.binding? id = some (.value value) →
    ∃ tree, first.module.Shows tree value
  alsoShown : ∀ {id : NodeId} {value : Value}, second.binding? id = some (.value value) →
    ∃ tree, second.module.Shows tree value

/-- What becomes of bindings when regions of reductions are left: axes may be unbound. -/
def Released (pool : Pool) (before after : Context) : Prop :=
  ∀ id, after.binding? id = before.binding? id ∨ pool.Axis id ∧ after.binding? id = none

theorem Released.of_same (same : after.bindings = before.bindings) : Released pool before after :=
  fun id => .inl (congrArg (Table.find? · id) same)

theorem Released.some (released : Released pool before after) {id : NodeId} {binding : Binding}
    (found : after.binding? id = some binding) : before.binding? id = some binding := by
  rcases released id with same | ⟨-, none⟩
  · exact same ▸ found
  · rw [none] at found
    cases found

theorem Released.plain (released : Released pool before after) (sound : pool.Sound next)
    {id : NodeId} (plain : pool.Plain id) : after.binding? id = before.binding? id :=
  (released id).resolve_right fun axis => sound.not_plain axis.1 plain

theorem Released.keeps (released : Released pool before after) (sound : pool.Sound next) :
    Keeps pool before after := fun _ _ plain found => (released.plain sound plain).trans found

namespace Matched

variable (matched : Matched pool first second) (sound : pool.Sound next)
include matched sound

/-- Contexts that have grown, with the same bindings but for axes. -/
theorem release {after last : Context} (left : Released pool first after)
    (right : Released pool second last) (grown : Grown first after) (also : Grown second last) :
    Matched pool after last where
  bound member plain found := by
    obtain ⟨partner, known⟩ := matched.bound member plain (left.some found)
    exact ⟨partner, (right.plain sound ⟨_, member, rfl, plain⟩).trans known⟩
  twins found known :=
    (matched.twins (left.some found) (right.some known)).grow grown.module also.module
  ahead {expr partner} member plain free found := by
    have named : pool.Plain expr.id := ⟨expr, member, rfl, plain⟩
    obtain ⟨value, same, renders⟩ := matched.ahead member plain
      ((left.plain sound named).symm.trans free) (right.some found)
    exact ⟨value, same, renders.mono (fun operand listed => sound.operands member operand
      (Expr.valueOperands_subset _ _ listed)) (right.keeps sound) also⟩
  shown found := by
    obtain ⟨tree, shows_⟩ := matched.shown (left.some found)
    exact ⟨tree, grown.module.shows tree shows_⟩
  alsoShown found := by
    obtain ⟨tree, shows_⟩ := matched.alsoShown (right.some found)
    exact ⟨tree, also.module.shows tree shows_⟩

variable (member : pool.expr expr)
include member

/-- Both contexts bind an axis, or a node that is new. -/
theorem bind_both {binding partner : Binding}
    (free : expr.isAxis = true ∨ second.binding? expr.id = none)
    (twin : Binding.Match first.module second.module binding partner) :
    Matched pool (first.bind expr.id binding) (second.bind expr.id partner) := by
  have keeps : Keeps pool second (second.bind expr.id partner) := by
    intro id found plain known
    rw [binding?_bind, if_neg, known]
    rintro rfl
    rcases free with axis | none
    · exact sound.not_plain ⟨expr, member, rfl, axis⟩ plain
    · rw [none] at known
      cases known
  have grown : Grown second (second.bind expr.id partner) := .of_same rfl rfl rfl
  constructor
  · intro other found inside plain known
    rw [binding?_bind] at known ⊢
    split
    · exact ⟨partner, rfl⟩
    · rename_i different
      rw [if_neg different] at known
      exact matched.bound inside plain known
  · intro id found other here there
    rw [binding?_bind] at here there
    split at here
    · rename_i same
      rw [if_pos same] at there
      cases here
      cases there
      exact twin
    · rename_i different
      rw [if_neg different] at there
      exact matched.twins here there
  · intro other found inside plain here there
    rw [binding?_bind] at here there
    split at here
    · cases here
    · rename_i different
      rw [if_neg different] at there
      obtain ⟨value, same, renders⟩ := matched.ahead inside plain here there
      exact ⟨value, same, renders.mono (fun operand listed => sound.operands inside operand
        (Expr.valueOperands_subset _ _ listed)) keeps grown⟩
  · intro id value found
    rw [binding?_bind] at found
    split at found
    · cases found
      cases twin with
      | value twins =>
          obtain ⟨tree, left, -⟩ := twins
          exact ⟨tree, left⟩
    · exact matched.shown found
  · intro id value found
    rw [binding?_bind] at found
    split at found
    · cases found
      cases twin with
      | value twins =>
          obtain ⟨tree, -, right⟩ := twins
          exact ⟨tree, right⟩
    · exact matched.alsoShown found

omit sound member in
/-- The first context catches up. -/
theorem bind_left {value partner : Value} (known : second.binding? expr.id = some (.value partner))
    (twins : Module.Twins first.module second.module value partner) :
    Matched pool (first.bind expr.id (.value value)) second := by
  constructor
  · intro other found inside plain here
    rw [binding?_bind] at here
    split at here
    · rename_i same
      exact ⟨_, same ▸ known⟩
    · exact matched.bound inside plain here
  · intro id found other here there
    rw [binding?_bind] at here
    split at here
    · rename_i same
      subst same
      cases here
      cases known.symm.trans there
      exact .value twins
    · exact matched.twins here there
  · intro other found inside plain here there
    rw [binding?_bind] at here
    split at here
    · cases here
    · exact matched.ahead inside plain here there
  · intro id found here
    rw [binding?_bind] at here
    split at here
    · cases here
      obtain ⟨tree, left, -⟩ := twins
      exact ⟨tree, left⟩
    · exact matched.shown here
  · exact matched.alsoShown

/-- The second context gets ahead. -/
theorem bind_right {value : Value} (free : second.binding? expr.id = none)
    (plain : expr.isAxis = false) (renders : Renders pool second expr value) :
    Matched pool first (second.bind expr.id (.value value)) := by
  have keeps : Keeps pool second (second.bind expr.id (.value value)) := by
    intro id found _ known
    rw [binding?_bind, if_neg, known]
    rintro rfl
    rw [free] at known
    cases known
  have grown : Grown second (second.bind expr.id (.value value)) := .of_same rfl rfl rfl
  have operands : ∀ {other : Expr}, pool.expr other →
      ∀ operand ∈ other.valueOperands, pool.expr operand := fun inside operand listed =>
    sound.operands inside operand (Expr.valueOperands_subset _ _ listed)
  have unbound : first.binding? expr.id = none := by
    cases found : first.binding? expr.id with
    | none => rfl
    | some binding =>
        obtain ⟨partner, known⟩ := matched.bound member plain found
        rw [free] at known
        cases known
  constructor
  · intro other found inside plain here
    obtain ⟨partner, known⟩ := matched.bound inside plain here
    exact ⟨partner, keeps _ _ ⟨other, inside, rfl, plain⟩ known⟩
  · intro id found other here there
    rw [binding?_bind] at there
    split at there
    · rename_i same
      rw [← same, unbound] at here
      cases here
    · exact matched.twins here there
  · intro other found inside plain here there
    rw [binding?_bind] at there
    split at there
    · rename_i same
      cases there
      obtain rfl := sound.unique member inside same
      exact ⟨value, rfl, renders.mono (operands inside) keeps grown⟩
    · obtain ⟨result, same, rendered⟩ := matched.ahead inside plain here there
      exact ⟨result, same, rendered.mono (operands inside) keeps grown⟩
  · exact matched.shown
  · intro id found here
    rw [binding?_bind] at here
    split at here
    · cases here
      obtain ⟨tree, -, shows_, -⟩ := renders
      exact ⟨tree, shows_⟩
    · exact matched.alsoShown here

end Matched

/-- Contexts of two modes: aligned, and with matching bindings. -/
structure Twinned (permit : Permit) (pool : Pool) (first second : Context) : Prop where
  aligned : Aligned permit first second
  matched : Matched pool first second

end Context

end AffineKernel
