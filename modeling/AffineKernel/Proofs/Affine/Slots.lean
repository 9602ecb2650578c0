import AffineKernel.Proofs.Affine.Divisors
import AffineKernel.Proofs.Build.Access

/-!
# Well-formed access maps

An access is read index by index, and every loop variable that occurs receives
a dimension when it is met for the first time. What the variables of an access
are, and in which order, is therefore settled by the indices alone: it is their
walk from left to right (`Expr.loopRefs`), where only the first occurrence of a
variable counts (`Extraction.Lists`). Since variables are only ever added behind
the others, a dimension keeps its variable while the rest is read, and the
results can be read off the indices again with the final dimensions
(`Expr.affineForm?`).

A variable keeps its dimension even if folding removes it from the results.
-/

set_option autoImplicit false

namespace AffineKernel

/-! ## Variables -/

/-- The loop variables of an index, from left to right, each as often as it occurs. -/
def Expr.loopRefs : Expr → List LoopRef
  | .loopVar id name | .axis id name _ _ => [⟨id, name⟩]
  | .cast _ _ source => source.loopRefs
  | .binary _ _ _ lhs rhs => lhs.loopRefs ++ rhs.loopRefs
  | _ => []

/-- The affine form of an index, given the dimensions of the loop variables. -/
def Expr.affineForm? (slot : NodeId → Nat) : Expr → Option AffineExpr
  | .loopVar id _ | .axis id _ _ _ => some (.dim (slot id))
  | .constant _ _ (.int value) => some (.constant value)
  | .cast _ _ source => source.affineForm? slot
  | .binary _ _ kind lhs rhs => do
    let combine ← Extraction.operator? kind
    let left ← lhs.affineForm? slot
    let right ← rhs.affineForm? slot
    return combine left right
  | _ => none

namespace Extraction

/-- Whether an occurrence is one of a variable. -/
def names (id : NodeId) (ref : LoopRef) : Bool := ref.id = id

/-- The variables of a walk, each one once, in the order of their first occurrences. -/
structure Lists (walk refs : List LoopRef) : Prop where
  covers : ∀ ref ∈ walk, ∃ seen ∈ refs, seen.id = ref.id
  first : ∀ ref ∈ refs, walk.find? (names ref.id) = some ref
  ordered : refs.Pairwise fun a b => walk.findIdx (names a.id) < walk.findIdx (names b.id)

/-- Dimensions that are the positions of variables in a list. -/
def Agrees (slot : NodeId → Nat) (refs : List LoopRef) : Prop :=
  ∀ (position : Nat) ref, refs[position]? = some ref → slot ref.id = position

theorem Agrees.left {slot : NodeId → Nat} {refs more : List LoopRef}
    (agrees : Agrees slot (refs ++ more)) : Agrees slot refs := by
  intro position ref found
  apply agrees position ref
  rw [List.getElem?_append_left (List.getElem?_eq_some_iff.mp found).1, found]

variable {ref : LoopRef} {walk found refs : List LoopRef} {position : Nat}

theorem Agrees.slot {slot : NodeId → Nat} (agrees : Agrees slot refs)
    (slotted : Extraction.slot ref found = .ok position refs) : slot ref.id = position := by
  rcases slot_cases slotted with ⟨rfl, seen, place, same⟩ | ⟨rfl, rfl, -⟩
  · rw [← same]
    exact agrees position seen place
  · exact agrees found.length ref (by simp)

namespace Lists

theorem nil : Lists [] [] := ⟨by simp, by simp, .nil⟩

/-- A variable occurs where it occurs first. -/
theorem findIdx_lt (lists : Lists walk found) {seen : LoopRef} (member : seen ∈ found) :
    walk.findIdx (names seen.id) < walk.length := by
  apply List.findIdx_lt_length_of_exists
  exact ⟨seen, List.mem_of_find?_eq_some (lists.first seen member), decide_eq_true rfl⟩

/-- More occurrences do not change where a variable occurs first. -/
theorem findIdx_append (lists : Lists walk found) {seen : LoopRef} (member : seen ∈ found)
    (more : List LoopRef) :
    (walk ++ more).findIdx (names seen.id) = walk.findIdx (names seen.id) := by
  rw [List.findIdx_append, if_pos (lists.findIdx_lt member)]

theorem find?_append (lists : Lists walk found) {seen : LoopRef} (member : seen ∈ found)
    (more : List LoopRef) : (walk ++ more).find? (names seen.id) = some seen := by
  rw [List.find?_append, lists.first seen member]
  rfl

theorem ordered_append (lists : Lists walk found) (more : List LoopRef) :
    found.Pairwise fun a b =>
      (walk ++ more).findIdx (names a.id) < (walk ++ more).findIdx (names b.id) := by
  apply lists.ordered.imp_of_mem
  intro a b first second before
  rwa [lists.findIdx_append first, lists.findIdx_append second]

/-- One more occurrence. -/
theorem slot (lists : Lists walk found) (slotted : slot ref found = .ok position refs) :
    Lists (walk ++ [ref]) refs := by
  rcases slot_cases slotted with ⟨rfl, seen, place, same⟩ | ⟨rfl, -, new⟩
  · refine ⟨?_, fun other member => lists.find?_append member [ref], lists.ordered_append [ref]⟩
    intro other member
    rcases List.mem_append.mp member with old | last
    · exact lists.covers other old
    · rw [List.mem_singleton.mp last]
      exact ⟨seen, List.mem_of_getElem? place, same⟩
  · have absent : ∀ other ∈ walk, names ref.id other = false := by
      intro other member
      obtain ⟨seen, inside, same⟩ := lists.covers other member
      exact decide_eq_false (same ▸ new seen inside)
    refine ⟨?_, ?_, List.pairwise_append.mpr ⟨lists.ordered_append [ref], by simp, ?_⟩⟩
    · intro other member
      rcases List.mem_append.mp member with old | last
      · obtain ⟨seen, inside, same⟩ := lists.covers other old
        exact ⟨seen, List.mem_append_left _ inside, same⟩
      · exact ⟨other, List.mem_append_right _ last, rfl⟩
    · intro other member
      rcases List.mem_append.mp member with old | last
      · exact lists.find?_append old [ref]
      · rw [List.mem_singleton.mp last, List.find?_append,
          List.find?_eq_none.mpr fun other member => by simp [absent other member]]
        simp [names]
    · intro a old b last
      rw [List.mem_singleton.mp last, lists.findIdx_append old]
      have later : walk.length ≤ (walk ++ [ref]).findIdx (names ref.id) := by
        rw [List.findIdx_append, List.findIdx_eq_length_of_false absent]
        simp
      exact Nat.lt_of_lt_of_le (lists.findIdx_lt old) later

/-- The variables are distinct. -/
theorem nodup (lists : Lists walk refs) : (refs.map LoopRef.id).Nodup := by
  apply List.pairwise_map.mpr
  apply lists.ordered.imp
  intro a b before same
  rw [same] at before
  exact Nat.lt_irrefl _ before

end Lists
/-- The dimensions of distinct variables are their positions. -/
theorem agrees_findIdx (distinct : (refs.map LoopRef.id).Nodup) :
    Agrees (fun id => refs.findIdx (names id)) refs := by
  intro position ref found
  obtain ⟨inside, rfl⟩ := List.getElem?_eq_some_iff.mp found
  apply (List.findIdx_eq inside).mpr
  refine ⟨decide_eq_true rfl, fun earlier before => decide_eq_false fun same => ?_⟩
  have apart := List.pairwise_iff_getElem.mp (List.pairwise_map.mp distinct) earlier position
    (Nat.lt_trans before inside) inside before
  exact apart same

/-! ## Indices -/

/-- How an index is read: the variables collected before and after, and the formula. -/
inductive Reads : Expr → List LoopRef → AffineExpr → List LoopRef → Prop where
  | loopVar {id name found position refs} : slot ⟨id, name⟩ found = .ok position refs →
      Reads (.loopVar id name) found (.dim position) refs
  | axis {id name lower upper found position refs} : slot ⟨id, name⟩ found = .ok position refs →
      Reads (.axis id name lower upper) found (.dim position) refs
  | constant {id dtype value found} : Reads (.constant id dtype (.int value)) found (.constant value) found
  | cast {id dtype source found form refs} : Reads source found form refs →
      Reads (.cast id dtype source) found form refs
  | binary {id dtype kind lhs rhs found left middle right refs combine} :
      Reads lhs found left middle → Reads rhs middle right refs → operator? kind = some combine →
      (combine left right).isPure = true → (dividing kind = true → right ≠ .constant 0) →
      Reads (.binary id dtype kind lhs rhs) found (combine left right) refs

theorem reads_of_index : ∀ {expr : Expr} {found refs : List LoopRef} {form : AffineExpr},
    index expr found = .ok form refs → Reads expr found form refs
  | .loopVar id name, found, refs, form, read => by
      rw [index] at read
      obtain ⟨position, middle, slotted, same⟩ := EStateM.bind_eq_ok read
      cases same
      exact .loopVar slotted
  | .axis id name lower upper, found, refs, form, read => by
      rw [index] at read
      obtain ⟨position, middle, slotted, same⟩ := EStateM.bind_eq_ok read
      cases same
      exact .axis slotted
  | .constant id dtype (.int value), found, refs, form, read => by
      cases read
      exact .constant
  | .cast id dtype source, found, refs, form, read => by
      rw [index] at read
      exact .cast (reads_of_index read)
  | .binary id dtype kind lhs rhs, found, refs, form, read => by
      rw [index] at read
      obtain ⟨left, middle, leftRead, read⟩ := EStateM.bind_eq_ok read
      obtain ⟨right, last, rightRead, joined⟩ := EStateM.bind_eq_ok read
      obtain ⟨rfl, ⟨combine, operates, rfl⟩, pure, nonzero⟩ := join_cases joined
      exact .binary (reads_of_index leftRead) (reads_of_index rightRead) operates pure nonzero
  | .constant _ _ (.float _), _, _, _, read | .unary .., _, _, _, read
  | .compare .., _, _, _, read | .load .., _, _, _, read | .store .., _, _, _, read
  | .select .., _, _, _, read | .call .., _, _, _, read | .getBit .., _, _, _, read
  | .reduce .., _, _, _, read => by cases read

/-- An operator keeps what holds of an affine form, if its result is affine and it does not divide
by the literal zero. -/
theorem proper_operator {kind : BinaryKind} {combine : AffineExpr → AffineExpr → AffineExpr}
    {dims : Nat} {lhs rhs : AffineExpr} (operates : operator? kind = some combine)
    (left : lhs.Proper dims) (right : rhs.Proper dims) (pure : (combine lhs rhs).isPure = true)
    (nonzero : dividing kind = true → rhs ≠ .constant 0) : (combine lhs rhs).Proper dims := by
  cases kind with
  | add | mul =>
      cases operates
      exact left.combine right pure (fun division => by cases division)
  | sub =>
      cases operates
      have product : (AffineExpr.binary .mul rhs (.constant (-1))).isPure = true := by
        simp [AffineExpr.isPure, AffineExpr.isSymbolic, right.pure]
      have negated : rhs.neg.Proper dims := right.combine (.constant (-1))
        (AffineExpr.isPure_combine product) (fun division => by cases division)
      have sum : (AffineExpr.combine .add lhs rhs.neg).isPure = true := pure
      exact left.combine negated sum (fun division => by cases division)
  | div | floorDiv | rem =>
      cases operates
      exact left.combine right pure fun _ => nonzero rfl
  | shl | shr | and | or | xor => cases operates

namespace Reads

variable {expr : Expr} {formula : AffineExpr}

theorem grows (reads : Reads expr found formula refs) : ∃ more, refs = found ++ more := by
  induction reads with
  | loopVar slotted | axis slotted =>
      rcases slot_cases slotted with ⟨rfl, -⟩ | ⟨rfl, -⟩
      · exact ⟨[], (List.append_nil _).symm⟩
      · exact ⟨_, rfl⟩
  | constant => exact ⟨[], (List.append_nil _).symm⟩
  | cast _ ih => exact ih
  | binary _ _ _ _ _ left right =>
      obtain ⟨first, rfl⟩ := left
      obtain ⟨second, rfl⟩ := right
      exact ⟨first ++ second, List.append_assoc _ first second⟩

/-- The variables of an index are walked from left to right. -/
theorem lists (reads : Reads expr found formula refs) (lists : Lists walk found) :
    Lists (walk ++ expr.loopRefs) refs := by
  induction reads generalizing walk with
  | loopVar slotted | axis slotted => exact lists.slot slotted
  | constant => exact (List.append_nil walk).symm ▸ lists
  | cast _ ih => exact ih lists
  | binary _ _ _ _ _ left right =>
      rw [Expr.loopRefs, ← List.append_assoc]
      exact right (left lists)

/-- The dimensions are those that the variables have in the end. -/
theorem form {slot : NodeId → Nat} (reads : Reads expr found formula refs)
    (agrees : Agrees slot refs) : expr.affineForm? slot = some formula := by
  induction reads with
  | loopVar slotted | axis slotted => 
      exact congrArg (fun position => some (AffineExpr.dim position)) (agrees.slot slotted)
  | constant => rfl
  | cast _ ih => exact ih agrees
  | binary _ second operates _ _ left right =>
      obtain ⟨more, rfl⟩ := second.grows
      rw [Expr.affineForm?, operates, left agrees.left, right agrees]
      rfl

theorem proper (reads : Reads expr found formula refs) : formula.Proper refs.length := by
  induction reads with
  | loopVar slotted | axis slotted =>
      apply AffineExpr.Proper.dim
      rcases slot_cases slotted with ⟨rfl, seen, place, -⟩ | ⟨rfl, rfl, -⟩
      · exact (List.getElem?_eq_some_iff.mp place).1
      · simp
  | constant => exact .constant _
  | cast _ ih => exact ih
  | binary _ second operates pure nonzero left right =>
      obtain ⟨more, rfl⟩ := second.grows
      exact proper_operator operates (left.mono (by simp)) right pure nonzero

end Reads

/-- How the indices of an access are read, one after the other. -/
inductive ReadsAll : List Expr → List LoopRef → List AffineExpr → List LoopRef → Prop where
  | nil {found : List LoopRef} : ReadsAll [] found [] found
  | cons {expr rest found form middle forms refs} : Reads expr found form middle →
      ReadsAll rest middle forms refs → ReadsAll (expr :: rest) found (form :: forms) refs

theorem readsAll_of_indices {exprs : List Expr} {forms : List AffineExpr}
    (read : exprs.mapM index found = .ok forms refs) : ReadsAll exprs found forms refs := by
  induction exprs generalizing found forms with
  | nil =>
      cases read
      exact .nil
  | cons expr rest ih =>
      rw [List.mapM_cons] at read
      obtain ⟨form, middle, first, read⟩ := EStateM.bind_eq_ok read
      obtain ⟨others, last, later, same⟩ := EStateM.bind_eq_ok read
      cases same
      exact .cons (reads_of_index first) (ih later)

namespace ReadsAll

variable {exprs : List Expr} {formulas : List AffineExpr}

theorem grows (reads : ReadsAll exprs found formulas refs) : ∃ more, refs = found ++ more := by
  induction reads with
  | nil => exact ⟨[], (List.append_nil _).symm⟩
  | cons first _ ih =>
      obtain ⟨more, rfl⟩ := first.grows
      obtain ⟨others, rfl⟩ := ih
      exact ⟨more ++ others, List.append_assoc _ more others⟩

theorem lists (reads : ReadsAll exprs found formulas refs) (lists : Lists walk found) :
    Lists (walk ++ exprs.flatMap Expr.loopRefs) refs := by
  induction reads generalizing walk with
  | nil =>
      rw [List.flatMap_nil, List.append_nil]
      exact lists
  | cons first _ ih =>
      rw [List.flatMap_cons, ← List.append_assoc]
      exact ih (first.lists lists)

theorem forms {slot : NodeId → Nat} (reads : ReadsAll exprs found formulas refs)
    (agrees : Agrees slot refs) : formulas.map some = exprs.map (Expr.affineForm? slot) := by
  induction reads with
  | nil => rfl
  | cons first rest ih =>
      obtain ⟨more, rfl⟩ := rest.grows
      rw [List.map_cons, List.map_cons, first.form agrees.left, ih agrees]

theorem proper (reads : ReadsAll exprs found formulas refs) :
    ∀ form ∈ formulas, form.Proper refs.length := by
  induction reads with
  | nil => simp
  | cons first rest ih =>
      obtain ⟨more, rfl⟩ := rest.grows
      intro form member
      rcases List.mem_cons.mp member with rfl | later
      · exact first.proper.mono (by simp)
      · exact ih form later

end ReadsAll

/-! ## Accesses -/

/-- A map over loop variables that was read off indices: a dimension for every variable that occurs
in the indices, in the order in which they occur first; no symbols; and for every index, in order,
its affine form with these dimensions. -/
structure WellFormed (exprs : List Expr) (map : AffineMap) (refs : List LoopRef) : Prop where
  distinct : (refs.map LoopRef.id).Nodup
  lists : Lists (exprs.flatMap Expr.loopRefs) refs
  dims : map.dims = refs.length
  symbols : map.symbols = 0
  results : map.results.map some =
    exprs.map (Expr.affineForm? fun id => refs.findIdx (names id))
  pure : ∀ result ∈ map.results, result.isPure = true
  inside : ∀ result ∈ map.results, result.dimCount ≤ map.dims
  divides : ∀ result ∈ map.results, result.DividesProperly

/-- **Well-formed accesses.** Whatever was collected before, the map of an access and the variables
that were collected for it are well formed. -/
theorem access_wellFormed {exprs : List Expr} {before refs : List LoopRef} {map : AffineMap}
    (read : access exprs before = .ok map refs) : WellFormed exprs map refs := by
  obtain ⟨_, start, begun, rest⟩ := EStateM.bind_eq_ok read
  cases begun
  obtain ⟨forms, found, indices, made⟩ := EStateM.bind_eq_ok rest
  cases made
  have reads := readsAll_of_indices indices
  have lists : Lists (exprs.flatMap Expr.loopRefs) refs := reads.lists .nil
  exact
    { distinct := lists.nodup
      lists := lists
      dims := rfl
      symbols := rfl
      results := reads.forms (agrees_findIdx lists.nodup)
      pure := fun result member => (reads.proper result member).pure
      inside := fun result member => (reads.proper result member).inside
      divides := fun result member => (reads.proper result member).divides }

/-- Two indices over two variables, one of which disappears from the first index; the divisor of
the second one is what is left of a quotient without a value. -/
def pairIndices : List Expr :=
  let first : Expr := .loopVar 3 "j"
  let second : Expr := .loopVar 1 "i"
  let least : Expr := .constant 4 .index (.int Int64.minValue)
  let minus : Expr := .constant 5 .index (.int (-1))
  [.binary 8 .index .add (.binary 6 .index .mul first (.constant 7 .index (.int 0))) second,
    .binary 10 .index .rem first (.binary 9 .index .floorDiv least minus)]

theorem pairIndices_wellFormed :
    WellFormed pairIndices
      ⟨2, 0, [.dim 1, .binary .mod (.dim 0)
        (.binary .floorDiv (.constant Int64.minValue) (.constant (-1)))]⟩
      [⟨3, "j"⟩, ⟨1, "i"⟩] := by
  have read : access pairIndices [⟨9, "k"⟩] = .ok _ [⟨3, "j"⟩, ⟨1, "i"⟩] := rfl
  exact access_wellFormed read

end Extraction

end AffineKernel
