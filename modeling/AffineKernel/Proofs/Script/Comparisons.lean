import AffineKernel.Proofs.Script.Typing
import AffineKernel.Proofs.Simulation.Comparisons

/-!
# Comparisons of scripts

What the operations compute that a script gets for a comparison, in either mode.

A comparison of two operands of one type becomes one operation, and its result
says whether the numbers stand in the relation (`Program.comparison_relates`).
Only truth values are compared backwards: they are held without a sign and read
with one (`Program.flags_compared_backwards`).

Operands of two types are promoted first. Types of one rank are not cast, so a
signed number can meet an unsigned one; both are then read as the type of the
left operand reads them. So the order of the operands matters to such a
comparison, unless both numbers have the same top bit
(`Program.comparison_exchanges`).
-/

set_option autoImplicit false

namespace AffineKernel

namespace Program

/-- At some moment a program turns a comparison into operations, from the context `start` on:
one that it constructs then, in either mode, or one that a variable holds and that is not bound. -/
inductive Materializes (program : Program) (id : NodeId) (kind : Comparison) (lhs rhs : Expr) :
    Context → Value → Context → Prop where
  | constructed {moment : Session} {left right : String} {value : Value} {middle after : Context} :
      Session.Passes program.body (program.session .fresh) moment →
      moment.vars.expr left = .ok lhs → moment.vars.expr right = .ok rhs →
      BuildM.compare kind lhs rhs moment.context = .ok (.compare id kind lhs rhs) middle →
      BuildM.buildValue (.compare id kind lhs rhs) middle = .ok value after →
      Materializes program id kind lhs rhs { moment.context with nextId := id + 1 } value after
  | held {moment : Session} {name : String} {value : Value} {after : Context} :
      Session.Passes program.body (program.session .fresh) moment →
      moment.vars.expr name = .ok (.compare id kind lhs rhs) →
      moment.context.binding? id = none →
      BuildM.buildValue (.compare id kind lhs rhs) moment.context = .ok value after →
      Materializes program id kind lhs rhs moment.context value after

variable {program : Program} {id : NodeId} {kind : Comparison} {lhs rhs : Expr}
  {start after : Context} {value : Value} {dtype : DType}

/-- What a program is about to materialize is a node of its pool that is not bound. -/
theorem Materializes.upholds (materializes : program.Materializes id kind lhs rhs start value after)
    (left : lhs.dtype? = some dtype) (right : rhs.dtype? = some dtype) :
    ∃ epoch pool, start.Upholds epoch pool ∧ pool.expr (.compare id kind lhs rhs) ∧
      start.binding? id = none ∧
      BuildM.build (.compare id kind lhs rhs) start = .ok (.value value) after := by
  cases materializes with
  | held passes named unbound built =>
      have traced := passes.traced (fun _ _ _ => trivial) (program.session_traced fun _ _ => True)
      obtain ⟨pool, -, within⟩ := traced.within
      exact ⟨_, pool, within.upholds, within.holds.expr named, unbound,
        BuildM.buildValue_eq_ok.mp built⟩
  | @constructed moment _ _ _ _ _ passes leftNamed rightNamed compared built =>
      have traced := passes.traced (fun _ _ _ => trivial) (program.session_traced fun _ _ => True)
      obtain ⟨pool, -, within⟩ := traced.within
      have leftMember := within.holds.expr leftNamed
      have rightMember := within.holds.expr rightNamed
      have finished := BuildM.compare_of_same left right compared
      obtain rfl : id = moment.context.nextId := by
        injection (BuildM.finish_eq_ok finished).1
      have whole := BuildM.finish_build finished (BuildM.buildValue_eq_ok.mp built)
      have accepts : pool.Accepts (.compare moment.context.nextId kind lhs rhs) :=
        ⟨by simp [Expr.operands, leftMember, rightMember], by simp [Expr.bounds],
          ⟨dtype, dtype, left, right, rfl, rfl⟩, by simp [Expr.tensor?]⟩
      obtain ⟨-, upheld⟩ := (BuildM.upholds_tracks _).insert rfl accepts within.upholds
      refine ⟨_, _, upheld, .inr rfl, ?_, whole⟩
      cases bound : moment.context.binding? moment.context.nextId with
      | none => exact bound
      | some binding =>
          -- Only values of nodes of the pool are bound, and an operation would not be a value.
          rw [BuildM.build_of_bound bound] at whole
          cases whole
          obtain ⟨expr, -, member, same, -⟩ := within.upholds.bound bound
          exact absurd same (Nat.ne_of_lt (within.upholds.sound.below member))

/-- **Comparisons of one type.** A comparison of two operands of one type that are no floats becomes
one operation on the values of its operands. On numbers of the type its result is one if the numbers
stand in the relation and zero otherwise; but truth values are compared in the opposite order. -/
theorem comparison_relates (materializes : program.Materializes id kind lhs rhs start value after)
    (left : lhs.dtype? = some dtype) (right : rhs.dtype? = some dtype)
    (raw : dtype.isFloat = false) :
    ∃ a b op reached last,
      BuildM.build lhs (start.emit (.materialize id "compare")) = .ok (.value a) reached ∧
      BuildM.build rhs reached = .ok (.value b) last ∧ value = .result op 0 ∧
      ∀ (module : Module) (run : Machine.RunBlock) (frame : Frame) (machine : Machine)
        (x y : Int), after.module.Retains module →
        normalize x dtype = x → frame.find? a = some (.scalar (.int x)) →
        normalize y dtype = y → frame.find? b = some (.scalar (.int y)) →
        Machine.Defines module run op frame machine
          (.ok (Meaning.truth (if dtype = .bool then kind.relates y x else kind.relates x y))) := by
  obtain ⟨epoch, pool, upholds, member, unbound, built⟩ := materializes.upholds left right
  obtain ⟨a, b, op, reached, last, first, second, result, defines⟩ :=
    BuildM.build_compare_defines upholds member left unbound built
  refine ⟨a, b, op, reached, last, first, second, result, ?_⟩
  intro module run frame machine x y retains xNormal atLeft yNormal atRight
  rw [← Meaning.compare_fits kind ⟨raw, xNormal⟩ ⟨raw, yNormal⟩]
  exact defines module run frame machine _ _ retains atLeft atRight

/-! ## Nodes that can be built -/

/-- The value that building a node ends in. -/
def builtValue? (outcome : EStateM.Result BuildError Context Binding) : Option Value :=
  match outcome with
  | .ok binding _ => binding.value?
  | .error _ _ => none

theorem exists_buildValue {expr : Expr} {context : Context}
    (yields : (builtValue? (BuildM.build expr context)).isSome = true) :
    ∃ value after, BuildM.buildValue expr context = .ok value after := by
  cases outcome : BuildM.build expr context with
  | error error after =>
      rw [outcome] at yields
      cases yields
  | ok binding after =>
      rw [outcome] at yields
      cases binding with
      | op id => cases yields
      | value value => exact ⟨value, after, BuildM.buildValue_eq_ok.mpr outcome⟩

theorem exists_compared {kind : Comparison} {lhs rhs : Expr} {context : Context}
    (yields :
      (builtValue? ((BuildM.compare kind lhs rhs >>= BuildM.build) context)).isSome = true) :
    ∃ node middle value after, BuildM.compare kind lhs rhs context = .ok node middle ∧
      BuildM.buildValue node middle = .ok value after := by
  cases outcome : BuildM.compare kind lhs rhs context with
  | error error after =>
      simp only [bind, EStateM.bind, outcome] at yields
      cases yields
  | ok node middle =>
      simp only [bind, EStateM.bind, outcome] at yields
      obtain ⟨value, after, built⟩ := exists_buildValue yields
      exact ⟨node, middle, value, after, rfl, built⟩

/-! ## Bytes and flags -/

/-- Two constants. -/
def constants (left : DType) (lhs : Int64) (right : DType) (rhs : Int64) : List Statement :=
  [.command ⟨some "a", false⟩ (.make (.constant (.int lhs) left)),
    .command ⟨some "b", false⟩ (.make (.constant (.int rhs) right))]

/-- A comparison of two variables. -/
def comparing (kind : Comparison) (first second : String) : Statement :=
  .command ⟨some "c", false⟩ (.make (.compare kind (.var first) (.var second)))

/-- Two bytes are compared, in the deferred mode. -/
def bytes : Program where
  mode := some .deferred
  setting := none
  setup := []
  body := constants (.uint 8) 200 (.uint 8) 100 ++ [comparing .lt "a" "b"]

/-- The session after these statements. -/
def bytesEnd : Session :=
  bytes.body.foldl (fun session statement => (Session.runStatement statement session).2)
    (bytes.session .fresh)

/-- The first of the bytes. -/
def byte : Expr := .constant 0 (.uint 8) (.int 200)

/-- The second one. -/
def otherByte : Expr := .constant 1 (.uint 8) (.int 100)

/-- The values of the bytes hold them. -/
def bytesFrame : Frame :=
  [⟨[(.result ⟨0⟩ 0, .scalar (.int 200)), (.result ⟨1⟩ 0, .scalar (.int 100))]⟩]

/-- The greater byte is not below the other one, though its top bit is set. -/
theorem bytes_not_less :
    ∃ op after, BuildM.buildValue (.compare 2 .lt byte otherByte) bytesEnd.context =
        .ok (.result op 0) after ∧
      ∀ (run : Machine.RunBlock) (machine : Machine),
        Machine.Defines after.module run op bytesFrame machine (.ok (.int 0)) := by
  have passes : Session.Passes bytes.body (bytes.session .fresh) bytesEnd :=
    .later (.later (.later .here))
  have first : builtValue? (BuildM.build byte
      (bytesEnd.context.emit (.materialize 2 "compare"))) = some (.result ⟨0⟩ 0) := by
    decide +kernel
  have second : builtValue? ((BuildM.build byte >>= fun _ => BuildM.build otherByte)
      (bytesEnd.context.emit (.materialize 2 "compare"))) = some (.result ⟨1⟩ 0) := by
    decide +kernel
  obtain ⟨value, after, built⟩ := exists_buildValue
    (show (builtValue? (BuildM.build (.compare 2 .lt byte otherByte) bytesEnd.context)).isSome =
      true by decide +kernel)
  have named : bytesEnd.vars.expr "c" = .ok (.compare 2 .lt byte otherByte) := by rfl
  have materializes : bytes.Materializes 2 .lt byte otherByte bytesEnd.context value after :=
    .held passes named (by decide +kernel) built
  obtain ⟨a, b, op, reached, last, left, right, rfl, defines⟩ :=
    comparison_relates materializes rfl rfl rfl
  rw [left] at first
  obtain rfl := Option.some.inj first
  simp only [bind, EStateM.bind, left, right] at second
  obtain rfl := Option.some.inj second
  refine ⟨op, after, built, fun run machine => ?_⟩
  exact defines after.module run bytesFrame machine 200 100 (.refl _) (by decide) rfl (by decide)
    rfl

/-- A function that compares the two truth values. -/
def flags : Program where
  mode := some .deferred
  setting := none
  setup := []
  body := [.function ⟨none, false⟩ "below" [] (some "c")
    (constants .bool 0 .bool 1 ++ [comparing .lt "a" "b"])]

/-- The module of this function. -/
def flagsModule : Module :=
  (Session.runAll flags.body (flags.session .fresh)).2.context.module

/-- Zero is below one, but truth values are compared the other way round. -/
theorem flags_compared_backwards :
    normalize 0 .bool = 0 ∧ normalize 1 .bool = 1 ∧ Comparison.lt.relates 0 1 = true ∧
      (Machine.call flagsModule 1 "below" [] .fresh).1.results.toOption.map
        (List.map Scalar.asInt?) = some [some 0] := by
  decide +kernel

/-! ## Both orders of the operands -/

/-- At some moment a program constructs a comparison of two nodes, in either mode, and builds it to
a value; the last argument is the context then. -/
inductive Compares (program : Program) (kind : Comparison) (lhs rhs : Expr) :
    Value → Context → Prop where
  | intro {moment : Session} {first second : String} {node : Expr} {value : Value}
      {middle after : Context} :
      Session.Passes program.body (program.session .fresh) moment →
      moment.vars.expr first = .ok lhs → moment.vars.expr second = .ok rhs →
      BuildM.compare kind lhs rhs moment.context = .ok node middle →
      BuildM.buildValue node middle = .ok value after →
      Compares program kind lhs rhs value after

/-- What the operations of a comparison compute. -/
theorem Compares.derives {left right : DType}
    (compares : program.Compares kind lhs rhs value after)
    (leftType : lhs.dtype? = some left) (rightType : rhs.dtype? = some right)
    (leftRaw : left.isFloat = false) (rightRaw : right.isFloat = false) :
    ∃ types a b, Promotion.arithmetic left right = .ok types ∧
      after.binding? lhs.id = some (.value a) ∧ after.binding? rhs.id = some (.value b) ∧
      ∀ x y : Int, normalize x left = x → normalize y right = y →
        after.module.Derives [(a, .int x), (b, .int y)] value
          (Meaning.truth (kind.relates (types.1.read (Promotion.bring left types.1 x))
            (types.1.read (Promotion.bring right types.2 y)))) := by
  cases compares with
  | intro passes leftNamed rightNamed compared built =>
      have traced := passes.traced (fun _ _ _ => trivial) (program.session_traced fun _ _ => True)
      obtain ⟨pool, -, within⟩ := traced.within
      obtain ⟨wide, grounded, held⟩ := grounded_of_passes passes
      obtain ⟨types, a, b, passed, leftBound, rightBound, derives⟩ :=
        BuildM.compare_derives within.upholds
          ⟨wide, grounded, held.expr leftNamed, held.expr rightNamed⟩
          (within.holds.expr leftNamed) (within.holds.expr rightNamed) leftType rightType compared
          built
      obtain ⟨firstRaw, secondRaw⟩ := Promotion.arithmetic_raw passed leftRaw rightRaw
      refine ⟨types, a, b, passed, leftBound, rightBound, fun x y xNormal yNormal => ?_⟩
      refine derives x y _ ⟨leftRaw, xNormal⟩ ⟨rightRaw, yNormal⟩ ?_
      rw [Scalar.convert_int leftRaw firstRaw, Scalar.convert_int rightRaw secondRaw,
        Meaning.compare_int kind firstRaw]

/-- **Comparisons in both orders.** Two nodes that are no floats are compared, and at some moment of
the program they are compared the other way round. Whatever numbers of their types the values have
that the nodes are bound to when a comparison is built, both comparisons have results; and these are
the same exactly if the comparison is one for equality or inequality, or the promoted types are both
signed or both unsigned, or the promoted numbers have the same top bit. -/
theorem comparison_exchanges {left right : DType} {p q : Value} {after' : Context}
    (direct : program.Compares kind lhs rhs p after)
    (exchanged : program.Compares kind.swap rhs lhs q after')
    (leftType : lhs.dtype? = some left) (rightType : rhs.dtype? = some right)
    (leftRaw : left.isFloat = false) (rightRaw : right.isFloat = false) :
    ∃ tl tr a b a' b', Promotion.arithmetic left right = .ok (tl, tr) ∧
      after.binding? lhs.id = some (.value a) ∧ after.binding? rhs.id = some (.value b) ∧
      after'.binding? lhs.id = some (.value a') ∧ after'.binding? rhs.id = some (.value b') ∧
      ∀ x y : Int, normalize x left = x → normalize y right = y → ∃ r s : Bool,
        after.module.Derives [(a, .int x), (b, .int y)] p (Meaning.truth r) ∧
        after'.module.Derives [(b', .int y), (a', .int x)] q (Meaning.truth s) ∧
        (r = s ↔ kind = .eq ∨ kind = .ne ∨ tl.isUnsigned = tr.isUnsigned ∨
          (signed (Promotion.bring left tl x) tl.width < 0 ↔
            signed (Promotion.bring right tr y) tl.width < 0)) := by
  obtain ⟨⟨tl, tr⟩, a, b, passed, leftBound, rightBound, derives⟩ :=
    direct.derives leftType rightType leftRaw rightRaw
  obtain ⟨types, b', a', swapped, rightBound', leftBound', derivesBack⟩ :=
    exchanged.derives rightType leftType rightRaw leftRaw
  obtain rfl : (tr, tl) = types :=
    Except.ok.inj ((Promotion.arithmetic_swap passed).symm.trans swapped)
  have width : tr.width = tl.width := (Promotion.arithmetic_meets passed).width
  have order : kind.isOrder = false ↔ kind = .eq ∨ kind = .ne := by
    cases kind <;> simp [Comparison.isOrder]
  refine ⟨tl, tr, a, b, a', b', passed, leftBound, rightBound, leftBound', rightBound', ?_⟩
  refine fun x y xNormal yNormal =>
    ⟨_, _, derives x y xNormal yNormal, derivesBack y x yNormal xNormal, ?_⟩
  rw [Comparison.relates_swap, DType.relates_read_iff width, order, or_assoc]

/-- A signed byte and an unsigned number of two bytes, in the deferred mode. -/
def widths : Program where
  mode := some .deferred
  setting := none
  setup := []
  body := constants (.int 8) (-1) (.uint 16) 7

/-- The session after these statements. -/
def widthsEnd : Session :=
  widths.body.foldl (fun session statement => (Session.runStatement statement session).2)
    (widths.session .fresh)

/-- The signed byte. -/
def signedByte : Expr := .constant 0 (.int 8) (.int (-1))

/-- The number of two bytes. -/
def twoBytes : Expr := .constant 1 (.uint 16) (.int 7)

/-- Both are brought to unsigned numbers of two bytes, so the order of the operands does not
matter. -/
theorem widths_exchange : ∃ (p q a b a' b' : Value) (after after' : Context) (result : Bool),
    widths.Compares .lt signedByte twoBytes p after ∧
    widths.Compares .gt twoBytes signedByte q after' ∧
    after.binding? signedByte.id = some (.value a) ∧
    after.binding? twoBytes.id = some (.value b) ∧
    after'.binding? signedByte.id = some (.value a') ∧
    after'.binding? twoBytes.id = some (.value b') ∧
    after.module.Derives [(a, .int (-1)), (b, .int 7)] p (Meaning.truth result) ∧
    after'.module.Derives [(b', .int 7), (a', .int (-1))] q (Meaning.truth result) := by
  have passes : Session.Passes widths.body (widths.session .fresh) widthsEnd :=
    .later (.later .here)
  have left : widthsEnd.vars.expr "a" = .ok signedByte := by rfl
  have right : widthsEnd.vars.expr "b" = .ok twoBytes := by rfl
  have yields : (builtValue? ((BuildM.compare .lt signedByte twoBytes >>= BuildM.build)
      widthsEnd.context)).isSome = true := by
    decide +kernel
  have yieldsBack : (builtValue? ((BuildM.compare .gt twoBytes signedByte >>= BuildM.build)
      widthsEnd.context)).isSome = true := by
    decide +kernel
  obtain ⟨node, middle, p, after, compared, built⟩ := exists_compared yields
  obtain ⟨other, middle', q, after', compared', built'⟩ := exists_compared yieldsBack
  have direct : widths.Compares .lt signedByte twoBytes p after :=
    .intro passes left right compared built
  have exchanged : widths.Compares .gt twoBytes signedByte q after' :=
    .intro passes right left compared' built'
  obtain ⟨tl, tr, a, b, a', b', passed, leftBound, rightBound, leftBound', rightBound', agree⟩ :=
    comparison_exchanges direct exchanged rfl rfl rfl rfl
  obtain ⟨r, s, derives, derivesBack, same⟩ := agree (-1) 7 (by decide) (by decide)
  have types : Promotion.arithmetic (.int 8) (.uint 16) = .ok (.uint 16, .uint 16) := by rfl
  cases passed.symm.trans types
  obtain rfl : r = s := same.mpr (.inr (.inr (.inl rfl)))
  exact ⟨p, q, a, b, a', b', after, after', r, direct, exchanged, leftBound, rightBound,
    leftBound', rightBound', derives, derivesBack⟩

/-- A signed and an unsigned byte, compared by two functions in both orders. -/
def mixed : Program where
  mode := some .deferred
  setting := none
  setup := []
  body :=
    [.function ⟨none, false⟩ "below" [] (some "c")
        (constants (.int 8) (-1) (.uint 8) 1 ++ [comparing .lt "a" "b"]),
      .function ⟨none, false⟩ "above" [] (some "c")
        (constants (.int 8) (-1) (.uint 8) 1 ++ [comparing .gt "b" "a"])]

/-- The module of these functions. -/
def mixedModule : Module :=
  (Session.runAll mixed.body (mixed.session .fresh)).2.context.module

/-- The first operand settles whether signs are read: minus one is below one, and one is not above
it. -/
theorem mixed_depends_on_order :
    normalize (-1) (.int 8) = -1 ∧ normalize 1 (.uint 8) = 1 ∧
      (Machine.call mixedModule 1 "below" [] .fresh).1.results.toOption.map
        (List.map Scalar.asInt?) = some [some 1] ∧
      (Machine.call mixedModule 1 "above" [] .fresh).1.results.toOption.map
        (List.map Scalar.asInt?) = some [some 0] := by
  decide +kernel

end Program

end AffineKernel
