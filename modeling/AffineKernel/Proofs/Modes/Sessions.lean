import Mathlib.Data.Option.Basic
import AffineKernel.Proofs.Modes.Regions
import AffineKernel.Proofs.Script.Bindings

/-!
# Sessions of two modes

A script is run in a session of each mode. Between two statements the contexts
of the two sessions are coupled, and their variables hold the same expressions,
tensors and slices; only the operations that they stand for may have other
numbers (`Session.Paired`). So a command looks up the same in both sessions, and
if its action leaves the contexts coupled, it leaves the sessions paired
(`Session.perform_proceeds`).
-/

set_option autoImplicit false

namespace AffineKernel

open Context

/-! ## Variables -/

/-- What a variable holds in the two modes: the same, or operations with the same regions. -/
inductive Entity.Match (module other : Module) : Entity → Entity → Prop where
  | expr (expr : Expr) : Match module other (.expr expr) (.expr expr)
  | tensor (tensor : Tensor) : Match module other (.tensor tensor) (.tensor tensor)
  | slice (slice : Slice) : Match module other (.slice slice) (.slice slice)
  | op {id partner : OpId} :
      Module.Siblings module other id partner → Match module other (.op id) (.op partner)

theorem Entity.Match.grow {module other grown wider : Module} {entity partner : Entity}
    (matched : Entity.Match module other entity partner) (retains : module.Retains grown)
    (also : other.Retains wider) : Entity.Match grown wider entity partner := by
  cases matched with
  | expr expr => exact .expr expr
  | tensor tensor => exact .tensor tensor
  | slice slice => exact .slice slice
  | op siblings => exact .op (siblings.grow retains also)

/-- Variables of the two modes, by name. -/
def Variables.Match (module other : Module) (vars others : Variables) : Prop :=
  ∀ name, Option.Rel (Entity.Match module other) (vars.find? name) (others.find? name)

namespace Variables.Match

variable {module other : Module} {vars others : Variables}
  (matched : Variables.Match module other vars others)
include matched

theorem grow {grown wider : Module} (retains : module.Retains grown) (also : other.Retains wider) :
    Variables.Match grown wider vars others := by
  intro name
  have both := matched name
  generalize vars.find? name = entity at both ⊢
  generalize others.find? name = partner at both ⊢
  cases both with
  | none => exact .none
  | some same => exact .some (same.grow retains also)

theorem insert {entity partner : Entity} (same : Entity.Match module other entity partner)
    (name : String) : Variables.Match module other (vars.insert name entity)
      (others.insert name partner) := by
  intro key
  rw [Table.find?_insert, Table.find?_insert]
  split
  · exact .some same
  · exact matched key

/-- Names stand for the same expressions. -/
theorem expr_eq : vars.expr = others.expr := by
  funext name
  have both := matched name
  unfold Variables.expr
  generalize vars.find? name = entity at both ⊢
  generalize others.find? name = partner at both ⊢
  cases both with
  | none => rfl
  | some same => cases same <;> rfl

theorem tensor_eq : vars.tensor = others.tensor := by
  funext name
  have both := matched name
  unfold Variables.tensor
  generalize vars.find? name = entity at both ⊢
  generalize others.find? name = partner at both ⊢
  cases both with
  | none => rfl
  | some same => cases same <;> rfl

theorem slice_eq : vars.slice = others.slice := by
  funext name
  have both := matched name
  unfold Variables.slice
  generalize vars.find? name = entity at both ⊢
  generalize others.find? name = partner at both ⊢
  cases both with
  | none => rfl
  | some same => cases same <;> rfl

theorem callArg_eq : vars.callArg = others.callArg := by
  funext name
  have both := matched name
  unfold Variables.callArg
  generalize vars.find? name = entity at both ⊢
  generalize others.find? name = partner at both ⊢
  cases both with
  | none => rfl
  | some same => cases same <;> rfl

theorem operand_eq : vars.operand = others.operand := by
  funext term
  cases term <;> simp only [Variables.operand, matched.expr_eq]

theorem indexArg_eq : vars.indexArg = others.indexArg := by
  funext term
  cases term <;> simp only [Variables.indexArg, matched.expr_eq]

theorem bound_eq : vars.bound = others.bound := by
  funext term
  cases term <;> simp only [Variables.bound, matched.expr_eq]

/-- Recipes make the same. -/
theorem plan_eq : Recipe.plan vars = Recipe.plan others := by
  funext recipe
  cases recipe <;>
    simp only [Recipe.plan, matched.expr_eq, matched.tensor_eq, matched.slice_eq,
      matched.callArg_eq, matched.operand_eq, matched.indexArg_eq, matched.bound_eq]

end Variables.Match

namespace Session

variable {permit : Permit} {pool wider : Pool} {first second middle between after last : Session}

/-! ## Paired sessions -/

/-- Sessions of the two modes between two statements. The first one is of the deferred mode. -/
structure Paired (permit : Permit) (pool : Pool) (first second : Session) : Prop where
  contexts : Context.Coupled permit pool first.context second.context
  vars : Variables.Match first.context.module second.context.module first.vars second.vars
  holds : pool.Holds first.vars
  rooted : 0 < first.context.module.blocks.size

/-- A step of both sessions leaves them paired. -/
def Proceeds (permit : Permit) (pool : Pool) (first second after last : Session) : Prop :=
  ∃ wider, Context.Forward permit pool first.context second.context after.context last.context
    wider ∧
    Paired permit wider after last

namespace Proceeds

theorem refl (paired : Paired permit pool first second) : Proceeds permit pool first second first
    second :=
  ⟨pool, .refl paired.contexts, paired⟩

theorem trans (start : Proceeds permit pool first second middle between)
    (later : ∀ wider, pool.Le wider → Paired permit wider middle between →
      Proceeds permit wider middle between after last) : Proceeds permit pool first second after
        last := by
  obtain ⟨wider, forward, paired⟩ := start
  obtain ⟨widest, further, done⟩ := later wider forward.le paired
  exact ⟨widest, forward.trans further, done⟩

end Proceeds

namespace Paired

variable (paired : Paired permit pool first second)
include paired

theorem alsoHolds : pool.Holds second.vars := by
  intro name entity found
  have both := paired.vars name
  rw [found] at both
  cases known : first.vars.find? name with
  | none =>
      rw [known] at both
      cases both
  | some held =>
      rw [known] at both
      have member := paired.holds name held known
      cases both with
      | some same => cases same <;> exact member

/-- The contexts have taken a step. -/
theorem step (forward : Context.Forward permit pool first.context second.context after.context
    last.context wider) (vars : after.vars = first.vars) (also : last.vars = second.vars) :
    Paired permit wider after last where
  contexts := forward.paired
  vars := by
    rw [vars, also]
    exact paired.vars.grow forward.left.module forward.right.module
  holds := vars ▸ forward.le.holds paired.holds
  rooted := forward.left.module.block_small paired.rooted

theorem proceed (forward : Context.Forward permit pool first.context second.context after.context
    last.context wider) (vars : after.vars = first.vars) (also : last.vars = second.vars) :
    Proceeds permit pool first second after last :=
  ⟨wider, forward, paired.step forward vars also⟩

/-- Both sessions give a name to what matches. -/
theorem assign {entity partner : Entity}
    (same : Entity.Match first.context.module second.context.module entity partner)
    (member : pool.entity entity) (name : Option String) :
    Paired permit pool (Session.assign name entity first).2
      (Session.assign name partner second).2 := by
  cases name with
  | none => exact paired
  | some name =>
      exact ⟨paired.contexts, paired.vars.insert same name, paired.holds.insert member name,
        paired.rooted⟩

end Paired

/-! ## Commands -/

section Steps

variable {α : Type} {plan : Variables → Resolved (BuildM α)} {report : α → SessionM Report}
  {session : Session}

/-- A command that has not failed: a variable of it stands for nothing, or its action has
succeeded. -/
theorem perform_ok (clean : (perform plan report session).1.2 = none) :
    (∃ name, plan session.vars = .error name ∧ (perform plan report session).2 = session) ∨
      ∃ action a after, plan session.vars = .ok action ∧
        action session.context = .ok a after ∧
        (perform plan report session).2 = (report a { session with context := after }).2 := by
  rw [perform, get_bind_apply] at clean ⊢
  cases resolved : plan session.vars with
  | error name => exact .inl ⟨name, rfl, rfl⟩
  | ok action =>
      rw [resolved] at clean
      dsimp only at clean ⊢
      rw [bind_apply, attempt_apply] at clean ⊢
      cases ran : action session.context with
      | ok a after => exact .inr ⟨action, a, after, rfl, ran, rfl⟩
      | error error after =>
          rw [ran] at clean
          cases clean

/-- What is reported in both sessions is named alike. -/
def Notes (permit : Permit) (pool : Pool) (first second after last : Session) : Prop :=
  Paired permit pool after last ∧ after.context = first.context ∧ last.context = second.context

/-- Commands with the same action, which leaves the contexts coupled. -/
theorem perform_proceeds {leap : Variables → Resolved (BuildM α)} (good : Pool → α → α → Prop)
    (paired : Paired permit pool first second) (same : plan first.vars = leap second.vars)
    (each : ∀ action, plan first.vars = .ok action →
      Both action action first.context second.context fun a b after last => ∃ wider,
        Context.Forward permit pool first.context second.context after last wider ∧ good wider a b)
    (notes : ∀ {wider : Pool} {a b : α} {after last : Session}, good wider a b →
      Paired permit wider after last → Notes permit wider after last (report a after).2
        (report b last).2)
    (clean : (perform plan report first).1.2 = none)
    (alsoClean : (perform leap report second).1.2 = none) :
    Proceeds permit pool first second (perform plan report first).2
      (perform leap report second).2 := by
  rcases perform_ok clean with ⟨name, missing, stays⟩ | ⟨action, a, after, resolved, ran, ends⟩
  · rcases perform_ok alsoClean with ⟨_, -, alsoStays⟩ | ⟨_, _, _, found, -⟩
    · rw [stays, alsoStays]
      exact .refl paired
    · rw [same, found] at missing
      cases missing
  · rcases perform_ok alsoClean with ⟨_, missing, -⟩ | ⟨_, b, last, found, done, alsoEnds⟩
    · rw [same, missing] at resolved
      cases resolved
    · cases found.symm.trans (same.symm.trans resolved)
      obtain ⟨wider, forward, made⟩ := each action resolved a b after last ran done
      have stepped : Paired permit wider { first with context := after }
        { second with context := last } :=
        paired.step forward rfl rfl
      obtain ⟨named, context, alsoContext⟩ := notes made stepped
      rw [ends, alsoEnds]
      refine ⟨wider, ?_, named⟩
      rw [context, alsoContext]
      exact forward

/-- Commands whose reports name nothing. -/
theorem notes_nothing (paired : Paired permit pool first second) : Notes permit pool first second
    first second :=
  ⟨paired, rfl, rfl⟩

theorem notes_assign {entity : Entity} (paired : Paired permit pool first second)
    (same : Entity.Match first.context.module second.context.module entity entity)
    (member : pool.entity entity) (name : Option String) :
    Notes permit pool first second (assign name entity first).2 (assign name entity second).2 :=
  ⟨paired.assign same member name, assign_context .., assign_context ..⟩

theorem notes_indexed {indexed : Indexed} (paired : Paired permit pool first second)
    (member : pool.indexed indexed) (name : Option String) :
    Notes permit pool first second (reportIndexed name indexed first).2
      (reportIndexed name indexed second).2 := by
  cases indexed with
  | load expr => exact notes_assign paired (.expr expr) member name
  | slice slice => exact notes_assign paired (.slice slice) member name

end Steps

end Session

end AffineKernel
