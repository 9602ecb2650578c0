import AffineKernel.Proofs.Modes.Runs
import AffineKernel.Proofs.Modes.Statements
import AffineKernel.Proofs.Simulation.Functions

/-!
# Agreement of the modes

A program declares the tensors that are the arguments of a function, and makes
the function with an orderly body. Its modules in the two modes are parallel, as
every step has left the sessions paired. If no tensor is both loaded from and
stored to, then neither is any buffer (`Context.Tidy.parted`), and calls of the
function that succeed reply the same (`Session.modes_agree`).

Where the insertion point is moved before the operation of a node that only
computes a scalar, the modes may disagree, as this operation is at another place;
and where a failure is caught, as it may be a failure in one of the modes only
(`Session.modes_disagree`).
-/

set_option autoImplicit false

namespace AffineKernel

open Context

/-- Whether a statement declares a tensor. -/
def Statement.declares : Statement → Bool
  | .command _ (.placeholder ..) => true
  | _ => false

namespace Context

variable {permit : Permit}

/-- Where tensors that are loaded from are not stored to, buffers that are read are not written. -/
theorem Tidy.parted {context : Context} (tidy : context.Tidy permit)
    (apart : ∀ tensor target : Tensor, permit.loads tensor → permit.stores target →
      tensor.id ≠ target.id) : context.module.Parted where
  apart := by
    intro value reads writes
    obtain ⟨tensor, loaded, found⟩ := tidy.reads reads
    rcases tidy.writes writes with ⟨target, stored, known⟩ | ⟨-, free⟩
    · exact apart tensor target loaded stored (tidy.apart found known)
    · exact free tensor.id found
  uncalled := tidy.uncalled

/-- Blank contexts are tidy. -/
theorem Blank.tidy {context : Context} (blank : context.Blank) : context.Tidy permit where
  reads := by
    rintro value ⟨id, op, found, -⟩
    rw [blank.module] at found
    cases found
  writes := by
    rintro value ⟨id, op, found, -⟩
    rw [blank.module] at found
    cases found
  uncalled found := by
    rw [blank.module] at found
    cases found
  shown found := by
    rw [blank.unstored] at found
    cases found
  apart found := by
    rw [blank.unstored] at found
    cases found

end Context

namespace Session

variable {permit : Permit} {pool : Pool} {first second : Session}

/-- The sessions of both modes start as a pair. -/
theorem fresh_paired (permit : Permit) :
    Paired permit .empty (fresh .deferred) (fresh .inPlace) where
  contexts :=
    { twinned :=
        { aligned :=
            { parallel := .empty
              stack := .cons (.atEnd Nat.zero_lt_one) .nil
              nextId := rfl
              fresh := fun _ _ => rfl
              stored := fun _ => .inl ⟨rfl, rfl⟩
              left := (fresh_blank .deferred).tidy
              right := (fresh_blank .inPlace).tidy }
          matched :=
            { bound := fun _ _ found => by cases found
              twins := fun found => by cases found
              ahead := fun _ _ _ found => by cases found
              shown := fun found => by cases found
              alsoShown := fun found => by cases found } }
      calm := ⟨Pool.sound_empty _, fun _ _ found => by cases found⟩
      alsoCalm := ⟨Pool.sound_empty _, fun _ _ found => by cases found⟩
      obeys := { records := fun member => member.elim, uncalled := fun member => member.elim }
      deferred := rfl }
  vars := fun _ => .none
  holds := fun _ _ found => by cases found
  rooted := Nat.zero_lt_one

/-- Declarations keep sessions paired, and nothing is built. -/
theorem runAll_declares : ∀ {setup : List Statement} {pool : Pool} {first second : Session},
    setup.all Statement.declares = true → Paired permit pool first second →
    first.context.Blank → second.context.Blank →
    (∃ wider, Paired permit wider (runAll setup first).2 (runAll setup second).2) ∧
      (runAll setup first).2.context.Blank ∧ (runAll setup second).2.context.Blank
  | [], pool, _, _, _, paired, blank, alsoBlank => ⟨⟨pool, paired⟩, blank, alsoBlank⟩
  | statement :: rest, pool, first, second, declares, paired, blank, alsoBlank => by
      rw [List.all_cons, Bool.and_eq_true] at declares
      obtain ⟨declared, others⟩ := declares
      unfold Statement.declares at declared
      split at declared
      · rename_i label name shape dtype
        have stays : ∀ {session : Session}, session.context.Blank →
            (runCommand label.name (.placeholder name shape dtype) session).2.context.Blank := by
          intro session blank
          have context : (runCommand label.name (.placeholder name shape dtype) session).2.context =
              { session.context with nextId := session.context.nextId + 1 } := assign_context ..
          rw [context]
          exact ⟨blank.module, blank.stack, blank.unbound, blank.unstored⟩
        obtain ⟨wider, -, later⟩ := runCommand_proceeds
          (show (Command.placeholder name shape dtype).isPlain = true from rfl) label.name paired
          (by simp [Command.loads]) nofun nofun rfl rfl
        have done := runAll_declares others later (stays blank) (stays alsoBlank)
        exact done
      · cases declared

/-! ## Loads and stores -/

/-- What the steps of a script load and store, without calls. -/
def permitOf (steps : List (Session × Statement)) : Permit where
  loads tensor := ∃ step ∈ steps, tensor ∈ step.2.loads step.1.vars
  stores tensor := ∃ step ∈ steps, tensor ∈ step.2.stores step.1.vars
  calls := False

/-- No tensor is both loaded from and stored to. -/
def LoadsApart (steps : List (Session × Statement)) : Prop :=
  ∀ step ∈ steps, ∀ other ∈ steps, ∀ tensor ∈ step.2.loads step.1.vars,
    ∀ target ∈ other.2.stores other.1.vars, tensor.id ≠ target.id

instance (steps : List (Session × Statement)) : Decidable (LoadsApart steps) :=
  inferInstanceAs (Decidable (∀ step ∈ steps, ∀ other ∈ steps, ∀ tensor ∈ step.2.loads step.1.vars,
    ∀ target ∈ other.2.stores other.1.vars, tensor.id ≠ target.id))

theorem heeds_permitOf {steps : List (Session × Statement)}
    (once : ∀ step ∈ steps, HousesOnce step) (anchored : ∀ step ∈ steps, Anchored step) :
    ∀ step ∈ steps, Heeds (permitOf steps) step :=
  fun step listed => ⟨once step listed, anchored step listed,
    fun _ loaded => ⟨step, listed, loaded⟩, fun _ stored => ⟨step, listed, stored⟩⟩

/-! ## Programs -/

/-- A function that has succeeded is one of tensors. -/
theorem tensors_of_succeeds {label : Label} {name : String} {args : List String}
    {result : Option String} {body : List Statement} {session : Session}
    (succeeds : (runStatement (.function label name args result body) session).1.succeeds = true) :
    ∃ tensors, args.mapM session.vars.tensor = .ok tensors := by
  have whole : (runStatement (.function label name args result body) session).1.succeeds =
      Outcome.succeeds (runFunction label name args result (runBody body) session).1 := rfl
  rw [whole, runFunction, get_bind_apply] at succeeds
  cases resolved : args.mapM session.vars.tensor with
  | error undefined =>
      rw [resolved] at succeeds
      cases succeeds
  | ok tensors => exact ⟨tensors, rfl⟩

/-- The function of a program is the first operation of its module. -/
theorem function_found {label : Label} {name : String} {args : List String}
    {result : Option String} {body : List Statement} {session : Session} {tensors : List Tensor}
    (blank : session.context.Blank) (resolved : args.mapM session.vars.tensor = .ok tensors)
    (succeeds : (runStatement (.function label name args result body) session).1.succeeds = true)
    (enlarges : Enlarges (BuildM.beginFunction name tensors) session
      (runStatement (.function label name args result body) session).2) :
    (runStatement (.function label name args result body) session).2.context.module.function? name =
        some ⟨0⟩ ∧
      (runStatement (.function label name args result body) session).2.context.module.region?
          ⟨0⟩ 0 =
        some ⟨1⟩ := by
  rcases ran : runStatement (.function label name args result body) session with ⟨record, final⟩
  rw [ran] at succeeds enlarges
  have ended : record.failure = none := by
    obtain ⟨report, failure, made, depth⟩ := record
    simp only [Record.succeeds, Bool.and_eq_true, Option.isNone_iff_eq_none] at succeeds
    exact succeeds.1
  obtain ⟨opened, done, last, runs, -⟩ := runs_of_ended ran ended resolved blank
  obtain ⟨op, found, kind, named, regions⟩ := runs.hosts.func
  have there := (enlarges runs.begun).module.op? found
  exact ⟨Module.function?_first there kind named, by simp [Module.region?, there, regions]⟩

/-- The session of a mode after declarations. -/
def declared (setup : List Statement) (mode : BuildMode) : Session := (runAll setup (fresh mode)).2

/-- **The modes agree.** A function is made over declared tensors in both modes. Its body calls
nothing, builds every store right after its construction, and moves the insertion point to ends of
blocks and before operations that act, never before one that only computes a scalar; no tensor is
given storage twice, and none is both loaded from and stored to. If all statements succeed in both
modes, then calls of the two functions that succeed return the same scalars, and leave the same
contents in all buffers. -/
theorem modes_agree {setup body : List Statement} (declares : setup.all Statement.declares = true)
    (prompt : promptBody body = true) {label : Label}
    {name : String} {args : List String} {result : Option String} {record twin : Record}
    {after last : Session}
    (ran : runStatement (.function label name args result body) (declared setup .deferred) =
      (record, after))
    (alsoRan : runStatement (.function label name args result body) (declared setup .inPlace) =
      (twin, last))
    (succeeds : record.succeeds = true) (alsoSucceeds : twin.succeeds = true)
    (once : ∀ step ∈ steps (.function label name args result body) (declared setup .deferred),
      HousesOnce step)
    (anchored : ∀ step ∈ steps (.function label name args result body) (declared setup .deferred),
      Anchored step)
    (apart : LoadsApart (steps (.function label name args result body) (declared setup .deferred)))
    (depth further : Nat) (buffers : List Buffer) (machine : Machine) {results ends : List Scalar}
    (replied : (Machine.call after.context.module depth name buffers machine).1.results =
      .ok results)
    (answered : (Machine.call last.context.module further name buffers machine).1.results =
      .ok ends) :
    (Machine.call after.context.module depth name buffers machine).1 =
      (Machine.call last.context.module further name buffers machine).1 := by
  have start := fun permit => runAll_declares declares (fresh_paired permit) (fresh_blank .deferred)
    (fresh_blank .inPlace)
  change ∀ permit,
    (∃ pool, Paired permit pool (declared setup .deferred) (declared setup .inPlace)) ∧
    (declared setup .deferred).context.Blank ∧ (declared setup .inPlace).context.Blank at start
  generalize declared setup .deferred = first at *
  generalize declared setup .inPlace = second at *
  generalize permitted : permitOf (steps (.function label name args result body) first) = permit
  obtain ⟨⟨pool, paired⟩, blank, alsoBlank⟩ := start permit
  have heeds := heeds_permitOf once anchored
  rw [permitted] at heeds
  have good : (runStatement (.function label name args result body) first).1.succeeds = true := by
    rw [ran]
    exact succeeds
  have alsoGood :
      (runStatement (.function label name args result body) second).1.succeeds = true := by
    rw [alsoRan]
    exact alsoSucceeds
  obtain ⟨proceeds, enlarges⟩ := runFunction_proceeds paired heeds
    (fun heeds _ _ paired => runBody_proceeds body prompt paired heeds) good alsoGood
  obtain ⟨tensors, resolved⟩ := tensors_of_succeeds good
  have alsoResolved : args.mapM second.vars.tensor = .ok tensors := paired.vars.tensor_eq ▸ resolved
  obtain ⟨left, right⟩ := enlarges tensors resolved
  obtain ⟨named, region⟩ := function_found blank resolved good left
  obtain ⟨alsoNamed, alsoRegion⟩ := function_found alsoBlank alsoResolved alsoGood right
  obtain ⟨wider, -, final⟩ := proceeds
  rw [ran] at named region final
  rw [alsoRan] at alsoNamed alsoRegion final
  have disjoint : ∀ tensor target : Tensor, permit.loads tensor → permit.stores target →
      tensor.id ≠ target.id := by
    subst permitted
    rintro tensor target ⟨step, listed, loaded⟩ ⟨other, known, stored⟩
    exact apart step listed other known tensor loaded target stored
  have aligned := final.contexts.twinned.aligned
  exact Machine.call_eq_of_ok aligned.parallel (aligned.left.parted disjoint)
    (aligned.right.parted disjoint) named alsoNamed region alsoRegion depth further buffers machine
    replied answered

/-! ## A shared node -/

/-- The declarations of a row to read and a row to write. -/
def rowsSetup : List Statement :=
  [.command ⟨some "a", false⟩ (.placeholder "a" [3] .int32),
    .command ⟨some "b", false⟩ (.placeholder "b" [3] .int32)]

/-- The body of a function that adds twice the first element to all elements, in another row, and
returns their sum; twice the first element is first used inside of the loop. Then it changes the
first element of the other row in a conditional, and once more by a store that is made after this
conditional and put before it. -/
def shiftBody : List Statement :=
  [.command ⟨some "x", false⟩ (.make (.load "a" [.const 0])),
    .command ⟨some "d", false⟩ (.make (.binary .add (.var "x") (.var "x"))),
    .loop ⟨none, false⟩ (some "i") (.const 0) (.const 3) ⟨1, none, none, false⟩
      [.command ⟨some "v", false⟩ (.make (.load "a" [.var "i"])),
        .command ⟨some "w", false⟩ (.make (.binary .add (.var "v") (.var "d"))),
        .command ⟨some "s", false⟩ (.make (.store (.var "w") "b" [.var "i"])),
        .command ⟨none, false⟩ (.build "s")],
    .conditional ⟨some "outer", false⟩ (.int 1)
      [.conditional ⟨some "inner", false⟩ (.int 1)
        [.command ⟨some "s", false⟩ (.make (.store (.int 5) "b" [.const 0])),
          .command ⟨none, false⟩ (.build "s")]],
    .withPoint ⟨none, false⟩ ⟨.region "outer" 0, some "inner"⟩
      [.command ⟨some "s", false⟩ (.make (.store (.int 0) "b" [.const 0])),
        .command ⟨none, false⟩ (.build "s")],
    .command ⟨some "j", false⟩ (.make (.axis (.const 0) (.const 3) "j")),
    .command ⟨some "u", false⟩ (.make (.load "a" [.var "j"])),
    .command ⟨some "e", false⟩ (.make (.binary .add (.var "u") (.var "d"))),
    .command ⟨some "r", false⟩ (.make (.reduce .sum (.var "e") ["j"]))]

/-- This function. -/
def shift : Statement := .function ⟨none, false⟩ "shift" ["a", "b"] (some "r") shiftBody

/-- What a function over buffers of integers replies when it is made in a mode and called. -/
def answer (setup : List Statement) (made : Statement) (name : String) (buffers : List Buffer)
    (mode : BuildMode) : Machine.Reply :=
  (Machine.call (runStatement made (declared setup mode)).2.context.module 4 name buffers .fresh).1

/-- The integers of the buffers of a reply, if the call has succeeded. -/
def contents (reply : Machine.Reply) : Option (List (Array (Option Int))) :=
  reply.results.toOption.map fun _ => reply.buffers.map fun buffer => buffer.data.map Scalar.asInt?

/-- The rows that the function is called with. -/
def rows : List Buffer :=
  [⟨[3], .int32, #[.int 3, .int 5, .int 1]⟩, ⟨[3], .int32, #[.int 0, .int 0, .int 0]⟩]

/-- The two modes make modules with different numbers of operations, and calls of the function reply
the same. -/
theorem shift_agrees :
    (runStatement shift (declared rowsSetup .deferred)).2.context.module.size = 35 ∧
      (runStatement shift (declared rowsSetup .inPlace)).2.context.module.size = 36 ∧
      contents (answer rowsSetup shift "shift" rows .deferred) =
        some [#[some 3, some 5, some 1], #[some 5, some 11, some 7]] ∧
      answer rowsSetup shift "shift" rows .deferred =
        answer rowsSetup shift "shift" rows .inPlace := by
  have declares : rowsSetup.all Statement.declares = true := by decide
  have prompt : promptBody shiftBody = true := by decide
  have succeeds : (runStatement shift (declared rowsSetup .deferred)).1.succeeds = true := by
    decide +kernel
  have alsoSucceeds : (runStatement shift (declared rowsSetup .inPlace)).1.succeeds = true := by
    decide +kernel
  have once : ∀ step ∈ steps shift (declared rowsSetup .deferred), HousesOnce step := by
    decide +kernel
  have anchored : ∀ step ∈ steps shift (declared rowsSetup .deferred), Anchored step := by
    decide +kernel
  have apart : LoadsApart (steps shift (declared rowsSetup .deferred)) := by decide +kernel
  have replied :
      (answer rowsSetup shift "shift" rows .deferred).results.toOption.isSome = true := by
    decide +kernel
  have answered :
      (answer rowsSetup shift "shift" rows .inPlace).results.toOption.isSome = true := by
    decide +kernel
  refine ⟨by decide +kernel, by decide +kernel, by decide +kernel, ?_⟩
  rcases ran : runStatement shift (declared rowsSetup .deferred) with ⟨record, after⟩
  rcases alsoRan : runStatement shift (declared rowsSetup .inPlace) with ⟨twin, last⟩
  rw [ran] at succeeds
  rw [alsoRan] at alsoSucceeds
  rw [answer, ran] at replied ⊢
  rw [answer, alsoRan] at answered ⊢
  obtain ⟨results, replied⟩ := Option.isSome_iff_exists.mp replied
  obtain ⟨ends, answered⟩ := Option.isSome_iff_exists.mp answered
  exact modes_agree declares prompt ran alsoRan succeeds alsoSucceeds once anchored apart 4 4 rows
    .fresh (Except.eq_ok_of_toOption replied) (Except.eq_ok_of_toOption answered)

/-! ## Disagreements -/

/-- The declarations of a cell to read and a cell to write. -/
def cellsSetup : List Statement :=
  [.command ⟨some "a", false⟩ (.placeholder "a" [1] .int32),
    .command ⟨some "b", false⟩ (.placeholder "b" [1] .int32)]

/-- The cells that functions are called with. -/
def cells : List Buffer := [⟨[1], .int32, #[.int 0]⟩, ⟨[1], .int32, #[.int 0]⟩]

/-- The body of a function that stores before an operation of a node which was constructed before
another store, and built after it. -/
def movedBody : List Statement :=
  [.conditional ⟨some "outer", false⟩ (.int 1) [.conditional ⟨some "inner", false⟩ (.int 1) []],
    .withPoint ⟨none, false⟩ ⟨.region "outer" 0, some "inner"⟩
      [.command ⟨some "y", false⟩ (.make (.constant (.int 5) .int32)),
        .command ⟨some "s", false⟩ (.make (.store (.int 1) "b" [.const 0])),
        .command ⟨none, false⟩ (.build "s"),
        .command ⟨none, false⟩ (.build "y"),
        .withPoint ⟨none, false⟩ ⟨.region "outer" 0, some "y"⟩
          [.command ⟨some "t", false⟩ (.make (.store (.int 2) "b" [.const 0])),
            .command ⟨none, false⟩ (.build "t")]]]

/-- This function. -/
def moved : Statement := .function ⟨none, false⟩ "moved" ["a", "b"] none movedBody

/-- The body of a function in which a load fails in the in-place mode only, and a store of it in the
deferred mode only; both failures are caught. -/
def caughtBody : List Statement :=
  [.command ⟨some "x", false⟩ (.make (.load "a" [.const 0])),
    .command ⟨some "y", false⟩ (.make (.constant (.int 5) .int32)),
    .command ⟨some "y", true⟩ (.make (.load "a" [.var "x"])),
    .command ⟨some "s", false⟩ (.make (.store (.var "y") "b" [.const 0])),
    .command ⟨none, true⟩ (.build "s")]

/-- This function. -/
def caught : Statement := .function ⟨none, false⟩ "caught" ["a", "b"] none caughtBody

/-- The conditions of `modes_agree` on insertion points and on failures are needed: two functions,
each of which is made in both modes, and stores other contents when it is called. One of them
inserts before an operation that only computes a scalar, and some statements of the other one fail
and are caught. -/
theorem modes_disagree :
    (promptBody movedBody = true ∧
      (∀ step ∈ steps moved (declared cellsSetup .deferred), HousesOnce step) ∧
      LoadsApart (steps moved (declared cellsSetup .deferred)) ∧
      (runStatement moved (declared cellsSetup .deferred)).1.succeeds = true ∧
      (runStatement moved (declared cellsSetup .inPlace)).1.succeeds = true ∧
      contents (answer cellsSetup moved "moved" cells .deferred) = some [#[some 0], #[some 2]] ∧
      contents (answer cellsSetup moved "moved" cells .inPlace) = some [#[some 0], #[some 1]]) ∧
    promptBody caughtBody = true ∧
      (∀ step ∈ steps caught (declared cellsSetup .deferred), Anchored step) ∧
      (∀ step ∈ steps caught (declared cellsSetup .deferred), HousesOnce step) ∧
      LoadsApart (steps caught (declared cellsSetup .deferred)) ∧
      (runStatement caught (declared cellsSetup .deferred)).1.failure = none ∧
      (runStatement caught (declared cellsSetup .inPlace)).1.failure = none ∧
      contents (answer cellsSetup caught "caught" cells .deferred) = some [#[some 0], #[some 0]] ∧
      contents (answer cellsSetup caught "caught" cells .inPlace) =
        some [#[some 0], #[some 5]] := by
  refine ⟨?_, by decide, by decide +kernel, by decide +kernel, by decide +kernel, ?_, ?_,
    by decide +kernel, by decide +kernel⟩
  · decide +kernel
  · exact Option.isNone_iff_eq_none.mp (by decide +kernel)
  · exact Option.isNone_iff_eq_none.mp (by decide +kernel)

end Session

end AffineKernel
