import AffineKernel.Proofs.Build.Pool

/-!
# Promotion as a join

Two operand types are promoted by going up in the order of ranks. Which types can
be promoted is decided by three things alone: no width is beyond the bound, half
precision meets only floats, and fixed point types have one fraction
(`Promotion.Compatible`). What they are promoted to does not depend on the side
they stand on (`Promotion.arithmetic_swap`), is of one category and one rank that
is no lower than either (`Promotion.arithmetic_settles`), and stays as it is when
it is promoted again; `Promotion.arithmetic_joins` collects these.

Types of one rank are not cast. Otherwise the lower one is cast toward the higher
one, and only if both are fixed point types are they then widened. So everything
is said of regularization first, and then of a higher and a lower type.
-/

set_option autoImplicit false

namespace AffineKernel

namespace DType

/-- A type whose width is within the bound, if the width is its own to choose. -/
def Bounded (dtype : DType) : Prop :=
  dtype.isInt = true ∨ dtype.isFixed = true → dtype.width ≤ maxIntWidth

/-- The rank that a type has if it is bounded. -/
def order : DType → Nat
  | .int width | .uint width => width
  | .index => indexRank
  | .fixed width _ | .ufixed width _ => fixedRankBase + width
  | .float16 => floatRankBase + 1
  | .float32 => floatRankBase + 2
  | .float64 => floatRankBase + 3

theorem rank_eq_ok_iff {dtype : DType} {rank : Nat} :
    dtype.rank = .ok rank ↔ dtype.Bounded ∧ dtype.order = rank := by
  cases dtype with
  | int size | uint size =>
      simp only [DType.rank, checkWidth, Bounded, isInt, width, order, true_or, true_imp_iff]
      by_cases small : size ≤ maxIntWidth <;> simp [small]
  | fixed size fraction | ufixed size fraction =>
      simp only [DType.rank, checkWidth, Bounded, isFixed, width, order, or_true, true_imp_iff]
      by_cases small : size ≤ maxIntWidth <;> simp [small, Except.map]
  | index | float16 | float32 | float64 => simp [DType.rank, Bounded, isInt, isFixed, order]

/-- Half precision ranks lowest of the floats. -/
theorem le_order_of_isFloat {dtype : DType} (isFloat : dtype.isFloat = true) :
    floatRankBase + 1 ≤ dtype.order := by
  cases dtype with
  | int | uint | index | fixed | ufixed => cases isFloat
  | float16 | float32 | float64 => decide

/-- Every float ranks above all other types. -/
theorem order_lt_of_not_isFloat {dtype : DType} (bounded : dtype.Bounded)
    (notFloat : dtype.isFloat = false) : dtype.order < floatRankBase := by
  cases dtype with
  | int size | uint size =>
      have small : size ≤ maxIntWidth := bounded (.inl rfl)
      simp only [order, floatRankBase, maxIntWidth] at small ⊢
      omega
  | fixed size fraction | ufixed size fraction =>
      have small : size ≤ maxIntWidth := bounded (.inr rfl)
      simp only [order, floatRankBase, fixedRankBase, maxIntWidth] at small ⊢
      omega
  | index => decide
  | float16 | float32 | float64 => cases notFloat

theorem isFloat_eq_false_iff {dtype : DType} :
    dtype.isFloat = false ↔ dtype.isIntegerLike = true ∨ dtype.isFixed = true := by
  cases dtype <;> simp [isFloat, isIntegerLike, isInt, isIndex, isFixed]

/-- Types with a rank are no wider than the widest integer. -/
theorem width_le_of_rank {dtype : DType} {rank : Nat} (ranked : dtype.rank = .ok rank) :
    dtype.width ≤ maxIntWidth := by
  have bounded := (rank_eq_ok_iff.mp ranked).1
  cases dtype with
  | int | uint => exact bounded (.inl rfl)
  | fixed | ufixed => exact bounded (.inr rfl)
  | index | float16 | float32 | float64 => decide

end DType

namespace Promotion

/-- What two types need to be operands of one operator. -/
structure Compatible (lhs rhs : DType) : Prop where
  left : lhs.Bounded
  right : rhs.Bounded
  leftHalf : lhs = .float16 → ¬ (rhs.isIntegerLike = true ∨ rhs.isFixed = true)
  rightHalf : rhs = .float16 → ¬ (lhs.isIntegerLike = true ∨ lhs.isFixed = true)
  fraction : lhs.isFixed = true → rhs.isFixed = true → lhs.fraction = rhs.fraction

variable {lhs rhs high low a b : DType}

/-! ## Regularization -/

theorem fraction?_eq_iff (left : lhs.isFixed = true) (right : rhs.isFixed = true) :
    lhs.fraction? = rhs.fraction? ↔ lhs.fraction = rhs.fraction := by
  cases lhs <;> cases rhs <;> simp_all [DType.isFixed, DType.fraction?, DType.fraction]

/-- Types without a point stay as they are; with points, fractions have to agree, and both types get
the larger width. -/
theorem regularize_eq_ok_iff : regularize lhs rhs = .ok (a, b) ↔
    lhs.isFixed = false ∧ rhs.isFixed = false ∧ a = lhs ∧ b = rhs ∨
      lhs.isFixed = true ∧ rhs.isFixed = true ∧ lhs.fraction = rhs.fraction ∧
        a = lhs.withWidth (max lhs.width rhs.width) ∧
        b = rhs.withWidth (max lhs.width rhs.width) := by
  unfold regularize
  cases left : lhs.isFixed <;> cases right : rhs.isFixed
  · simp [eq_comm]
  · simp
  · simp
  · have same := fraction?_eq_iff left right
    by_cases equal : lhs.fraction = rhs.fraction
    · simp [same.mpr equal, equal, eq_comm]
    · simp [mt same.mp equal, equal]

theorem regularize_swap (passed : regularize lhs rhs = .ok (a, b)) :
    regularize rhs lhs = .ok (b, a) := by
  rw [regularize_eq_ok_iff] at passed ⊢
  rcases passed with ⟨left, right, rfl, rfl⟩ | ⟨left, right, same, rfl, rfl⟩
  · exact .inl ⟨right, left, rfl, rfl⟩
  · exact .inr ⟨right, left, same.symm, by rw [Nat.max_comm], by rw [Nat.max_comm]⟩

theorem rank_of_isFixed {dtype : DType} (isFixed : dtype.isFixed = true)
    (small : dtype.width ≤ maxIntWidth) : dtype.rank = .ok (100 + dtype.width) := by
  rw [DType.rank_eq_ok_iff]
  cases dtype <;> first | exact ⟨fun _ => small, rfl⟩ | cases isFixed

theorem isFixed_withWidth (dtype : DType) (width : Nat) :
    (dtype.withWidth width).isFixed = dtype.isFixed := by
  cases dtype <;> rfl

theorem fraction_withWidth (dtype : DType) (width : Nat) :
    (dtype.withWidth width).fraction = dtype.fraction := by
  cases dtype <;> rfl

theorem withWidth_withWidth (dtype : DType) (width other : Nat) :
    (dtype.withWidth width).withWidth other = dtype.withWidth other := by
  cases dtype <;> rfl

/-- Regularized types have one rank, and are regular. -/
theorem regularize_settles {rank : Nat} (passed : regularize lhs rhs = .ok (a, b))
    (left : lhs.rank = .ok rank) (plain : lhs.isFixed = false → rhs.rank = .ok rank)
    (narrow : rhs.width ≤ maxIntWidth) :
    ∃ top, a.rank = .ok top ∧ b.rank = .ok top ∧ rank ≤ top ∧ regularize a b = .ok (a, b) := by
  rcases regularize_eq_ok_iff.mp passed with
    ⟨unfixed, unfixed', rfl, rfl⟩ | ⟨isFixed, isFixed', same, rfl, rfl⟩
  · exact ⟨rank, left, plain unfixed, Nat.le_refl _, passed⟩
  · have bound := DType.width_le_of_rank left
    obtain rfl : 100 + lhs.width = rank :=
      Except.ok.inj ((rank_of_isFixed isFixed bound).symm.trans left)
    have small : max lhs.width rhs.width ≤ maxIntWidth := Nat.max_le.mpr ⟨bound, narrow⟩
    have rank : ∀ {dtype : DType}, dtype.isFixed = true →
        (dtype.withWidth (max lhs.width rhs.width)).rank =
          .ok (100 + max lhs.width rhs.width) := by
      intro dtype point
      have width := width_withWidth point (max lhs.width rhs.width)
      have pointed := isFixed_withWidth dtype (max lhs.width rhs.width)
      rw [rank_of_isFixed (pointed.trans point) (by rw [width]; exact small), width]
    refine ⟨_, rank isFixed, rank isFixed', by omega, ?_⟩
    rw [regularize_eq_ok_iff]
    refine .inr ⟨?_, ?_, ?_, ?_, ?_⟩
    · rw [isFixed_withWidth, isFixed]
    · rw [isFixed_withWidth, isFixed']
    · rw [fraction_withWidth, fraction_withWidth, same]
    · rw [width_withWidth isFixed, width_withWidth isFixed', Nat.max_self, withWidth_withWidth]
    · rw [width_withWidth isFixed, width_withWidth isFixed', Nat.max_self, withWidth_withWidth]

/-! ## A higher and a lower type -/

theorem rankOf_of_rank {dtype : DType} {rank : Nat} (ranked : dtype.rank = .ok rank) :
    rankOf dtype = .ok rank := by
  rw [rankOf, ranked]
  rfl

section Ranked

variable {left right : Nat} (leftRank : lhs.rank = .ok left) (rightRank : rhs.rank = .ok right)
include leftRank rightRank

/-- Types of one rank are not cast. -/
theorem arithmetic_of_eq (same : left = right) : arithmetic lhs rhs = regularize lhs rhs := by
  simp only [arithmetic, byRank, rankOf_of_rank leftRank, rankOf_of_rank rightRank]
  simp [bind, Except.bind, same, pure, Except.pure]

/-- The right operand is cast if its rank is lower. -/
theorem arithmetic_of_gt (lower : right < left) :
    arithmetic lhs rhs = (castTarget lhs rhs).bind (regularize lhs) := by
  have different : left ≠ right := Nat.ne_of_gt lower
  simp only [arithmetic, byRank, rankOf_of_rank leftRank, rankOf_of_rank rightRank]
  cases cast : castTarget lhs rhs <;>
    simp [bind, Except.bind, pure, Except.pure, different, lower]

/-- The left operand is cast if its rank is lower. -/
theorem arithmetic_of_lt (lower : left < right) :
    arithmetic lhs rhs = (castTarget rhs lhs).bind (regularize · rhs) := by
  have different : left ≠ right := Nat.ne_of_lt lower
  have notGreater : ¬ right < left := Nat.lt_asymm lower
  simp only [arithmetic, byRank, rankOf_of_rank leftRank, rankOf_of_rank rightRank]
  cases cast : castTarget rhs lhs <;>
    simp [bind, Except.bind, pure, Except.pure, different, notGreater]

end Ranked

/-- What is promoted has ranks. -/
theorem ranks_of_arithmetic {types : DType × DType} (passed : arithmetic lhs rhs = .ok types) :
    ∃ left right, lhs.rank = .ok left ∧ rhs.rank = .ok right := by
  obtain ⟨cast, passed, -⟩ := Except.bind_eq_ok passed
  obtain ⟨left, leftRank, passed⟩ := Except.bind_eq_ok passed
  obtain ⟨right, rightRank, -⟩ := Except.bind_eq_ok passed
  exact ⟨left, right, rankOf_eq leftRank, rankOf_eq rightRank⟩

/-- The sides do not matter: what is right for one order of the operands is right for the other. -/
theorem arithmetic_swap (passed : arithmetic lhs rhs = .ok (a, b)) :
    arithmetic rhs lhs = .ok (b, a) := by
  obtain ⟨left, right, leftRank, rightRank⟩ := ranks_of_arithmetic passed
  rcases Nat.lt_trichotomy left right with lower | same | higher
  · rw [arithmetic_of_lt leftRank rightRank lower] at passed
    rw [arithmetic_of_gt rightRank leftRank lower]
    obtain ⟨cast, found, passed⟩ := Except.bind_eq_ok passed
    rw [found]
    exact regularize_swap passed
  · rw [arithmetic_of_eq leftRank rightRank same] at passed
    rw [arithmetic_of_eq rightRank leftRank same.symm]
    exact regularize_swap passed
  · rw [arithmetic_of_gt leftRank rightRank higher] at passed
    rw [arithmetic_of_lt rightRank leftRank higher]
    obtain ⟨cast, found, passed⟩ := Except.bind_eq_ok passed
    rw [found]
    exact regularize_swap passed

/-- What a lower type is cast to beside a fixed point type: a fixed point type of its own width, and
of its own fraction if it has one. -/
theorem castTarget_fixed {target : DType} (isFixed : high.isFixed = true)
    (passed : castTarget high low = .ok target) :
    target.isFixed = true ∧ target.width = low.width ∧
      (low.isFixed = true → target = low) ∧
      (low.isFixed = false → target.fraction = high.fraction) := by
  cases high with
  | int | uint | index | float16 | float32 | float64 => cases isFixed
  | fixed width fraction | ufixed width fraction =>
      cases low <;> cases passed <;>
        simp [DType.isFixed, DType.width, DType.fraction, DType.fraction?]

/-- A type that is cast has a width within the bound. -/
theorem castTarget_width {left right : Nat} {target : DType} (highRank : high.rank = .ok left)
    (lowRank : low.rank = .ok right) (found : castTarget high low = .ok target) :
    target.width ≤ maxIntWidth := by
  cases isFixed : high.isFixed with
  | true =>
      rw [(castTarget_fixed isFixed found).2.1]
      exact DType.width_le_of_rank lowRank
  | false =>
      rw [castTarget_eq isFixed found]
      exact DType.width_le_of_rank highRank

/-- A higher and a lower type are promoted to types of one rank, which are regular. -/
theorem settles_of_gt {left right : Nat} (leftRank : lhs.rank = .ok left)
    (rightRank : rhs.rank = .ok right) (lower : right < left)
    (passed : arithmetic lhs rhs = .ok (a, b)) :
    ∃ top, a.rank = .ok top ∧ b.rank = .ok top ∧ left ≤ top ∧ right ≤ top ∧
      regularize a b = .ok (a, b) := by
  rw [arithmetic_of_gt leftRank rightRank lower] at passed
  obtain ⟨target, found, passed⟩ := Except.bind_eq_ok passed
  have plain : lhs.isFixed = false → target.rank = .ok left := fun unfixed => by
    rw [castTarget_eq unfixed found, leftRank]
  obtain ⟨top, first, second, above, regular⟩ :=
    regularize_settles passed leftRank plain (castTarget_width leftRank rightRank found)
  exact ⟨top, first, second, above, Nat.le_of_lt (Nat.lt_of_lt_of_le lower above), regular⟩

/-- Types are promoted to types of one rank, which is no lower than theirs, and which are
regular. -/
theorem arithmetic_settles (passed : arithmetic lhs rhs = .ok (a, b)) :
    ∃ left right top, lhs.rank = .ok left ∧ rhs.rank = .ok right ∧
      a.rank = .ok top ∧ b.rank = .ok top ∧ left ≤ top ∧ right ≤ top ∧
      regularize a b = .ok (a, b) := by
  obtain ⟨left, right, leftRank, rightRank⟩ := ranks_of_arithmetic passed
  rcases Nat.lt_trichotomy left right with lower | same | higher
  · obtain ⟨top, second, first, above, alsoAbove, regular⟩ :=
      settles_of_gt rightRank leftRank lower (arithmetic_swap passed)
    exact ⟨left, right, top, leftRank, rightRank, first, second, alsoAbove, above,
      regularize_swap regular⟩
  · subst same
    rw [arithmetic_of_eq leftRank rightRank rfl] at passed
    obtain ⟨top, first, second, above, regular⟩ := regularize_settles passed leftRank
      (fun _ => rightRank) (DType.width_le_of_rank rightRank)
    exact ⟨left, left, top, leftRank, rightRank, first, second, above, above, regular⟩
  · obtain ⟨top, first, second, above, alsoAbove, regular⟩ :=
      settles_of_gt leftRank rightRank higher passed
    exact ⟨left, right, top, leftRank, rightRank, first, second, above, alsoAbove, regular⟩

/-! ## What can be promoted -/

theorem Compatible.swap (compatible : Compatible lhs rhs) : Compatible rhs lhs where
  left := compatible.right
  right := compatible.left
  leftHalf := compatible.rightHalf
  rightHalf := compatible.leftHalf
  fraction first second := (compatible.fraction second first).symm

/-- Regularization asks for one fraction, if types of one category meet. -/
theorem regularize_succeeds_iff (same : lhs.isFixed = rhs.isFixed) :
    (∃ types, regularize lhs rhs = .ok types) ↔
      (lhs.isFixed = true → rhs.isFixed = true → lhs.fraction = rhs.fraction) := by
  constructor
  · rintro ⟨⟨a, b⟩, passed⟩ left right
    rcases regularize_eq_ok_iff.mp passed with ⟨unfixed, -⟩ | ⟨-, -, equal, -⟩
    · rw [unfixed] at left
      cases left
    · exact equal
  · intro equal
    cases left : lhs.isFixed with
    | false => exact ⟨(lhs, rhs), regularize_eq_ok_iff.mpr (.inl ⟨left, same ▸ left, rfl, rfl⟩)⟩
    | true =>
        have right : rhs.isFixed = true := same ▸ left
        exact ⟨(_, _), regularize_eq_ok_iff.mpr
          (.inr ⟨left, right, equal left right, rfl, rfl⟩)⟩

/-- A cast toward a higher type is refused by half precision, and by a fixed point type if it is a
float that is to be cast. -/
theorem castTarget_refused {error : BuildError} (refused : castTarget high low = .error error) :
    high = .float16 ∨ high.isFixed = true ∧ low.isFloat = true := by
  cases high with
  | int | uint | index | float32 | float64 => cases refused
  | float16 => exact .inl rfl
  | fixed | ufixed =>
      refine .inr ⟨rfl, ?_⟩
      cases low <;> first | rfl | cases refused

theorem castTarget_isFixed {target : DType} (found : castTarget high low = .ok target) :
    high.isFixed = target.isFixed := by
  have same := castTarget_category found
  cases high <;> cases target <;> first | rfl | cases same

/-- A higher and a lower type can be promoted if they are compatible. -/
theorem succeeds_of_gt {left right : Nat} (leftRank : lhs.rank = .ok left)
    (rightRank : rhs.rank = .ok right) (lower : right < left) :
    (∃ types, arithmetic lhs rhs = .ok types) ↔ Compatible lhs rhs := by
  rw [arithmetic_of_gt leftRank rightRank lower]
  obtain ⟨leftBounded, rfl⟩ := DType.rank_eq_ok_iff.mp leftRank
  obtain ⟨rightBounded, rfl⟩ := DType.rank_eq_ok_iff.mp rightRank
  -- A float is not below anything but a float.
  have above : lhs.isFloat = false → rhs.isFloat = false := by
    intro notFloat
    cases isFloat : rhs.isFloat with
    | false => rfl
    | true =>
        have first := DType.order_lt_of_not_isFloat leftBounded notFloat
        have second := DType.le_order_of_isFloat isFloat
        omega
  cases found : castTarget lhs rhs with
  | error error =>
      refine iff_of_false (by rintro ⟨types, passed⟩; cases passed) fun compatible => ?_
      rcases castTarget_refused found with rfl | ⟨isFixed, isFloat⟩
      · cases isFloat : rhs.isFloat with
        | false => exact compatible.leftHalf rfl (DType.isFloat_eq_false_iff.mp isFloat)
        | true => exact absurd lower (Nat.not_lt_of_le (DType.le_order_of_isFloat isFloat))
      · rw [above (DType.isFloat_eq_false_iff.mpr (.inr isFixed))] at isFloat
        cases isFloat
  | ok target =>
      have fixedCast := fun isFixed : lhs.isFixed = true => castTarget_fixed isFixed found
      rw [show (Except.ok target).bind (regularize lhs) = regularize lhs target from rfl,
        regularize_succeeds_iff (castTarget_isFixed found)]
      constructor
      · intro equal
        refine ⟨leftBounded, rightBounded, ?_, ?_, fun first second => ?_⟩
        · rintro rfl
          cases found
        · rintro rfl integral
          have notFloat := above (DType.isFloat_eq_false_iff.mpr integral)
          cases notFloat
        · have same := (fixedCast first).2.2.1 second
          rw [same] at equal
          exact equal first second
      · intro compatible first _
        obtain ⟨-, -, kept, made⟩ := fixedCast first
        cases second : rhs.isFixed with
        | true => exact (kept second).symm ▸ compatible.fraction first second
        | false => exact (made second).symm

/-- Types of one rank can be promoted if they are compatible. -/
theorem succeeds_of_eq {left right : Nat} (leftRank : lhs.rank = .ok left)
    (rightRank : rhs.rank = .ok right) (same : left = right) :
    (∃ types, arithmetic lhs rhs = .ok types) ↔ Compatible lhs rhs := by
  subst same
  obtain ⟨leftBounded, leftOrder⟩ := DType.rank_eq_ok_iff.mp leftRank
  obtain ⟨rightBounded, rightOrder⟩ := DType.rank_eq_ok_iff.mp rightRank
  have sort := (meets_of_rank leftRank rightRank).category
  have isFixed : lhs.isFixed = rhs.isFixed := by
    cases lhs <;> cases rhs <;> first | rfl | cases sort
  -- A float has the rank of a float only.
  have half : ∀ {dtype other : DType}, other.Bounded → dtype.order = other.order →
      dtype = .float16 → ¬ (other.isIntegerLike = true ∨ other.isFixed = true) := by
    rintro dtype other bounded equal rfl integral
    have small := DType.order_lt_of_not_isFloat bounded (DType.isFloat_eq_false_iff.mpr integral)
    have large : DType.floatRankBase + 1 ≤ DType.float16.order := DType.le_order_of_isFloat rfl
    omega
  rw [arithmetic_of_eq leftRank rightRank rfl, regularize_succeeds_iff isFixed]
  exact ⟨fun equal => ⟨leftBounded, rightBounded,
      half rightBounded (leftOrder.trans rightOrder.symm),
      half leftBounded (rightOrder.trans leftOrder.symm), equal⟩,
    fun compatible => compatible.fraction⟩

/-- Types can be promoted if and only if they are compatible. -/
theorem arithmetic_succeeds_iff :
    (∃ types, arithmetic lhs rhs = .ok types) ↔ Compatible lhs rhs := by
  by_cases ranked : lhs.Bounded ∧ rhs.Bounded
  · have leftRank := DType.rank_eq_ok_iff.mpr ⟨ranked.1, rfl⟩
    have rightRank := DType.rank_eq_ok_iff.mpr ⟨ranked.2, rfl⟩
    rcases Nat.lt_trichotomy lhs.order rhs.order with lower | same | higher
    · have swapped := succeeds_of_gt rightRank leftRank lower
      constructor
      · rintro ⟨⟨a, b⟩, passed⟩
        exact (swapped.mp ⟨_, arithmetic_swap passed⟩).swap
      · intro compatible
        obtain ⟨⟨a, b⟩, passed⟩ := swapped.mpr compatible.swap
        exact ⟨_, arithmetic_swap passed⟩
    · exact succeeds_of_eq leftRank rightRank same
    · exact succeeds_of_gt leftRank rightRank higher
  · refine iff_of_false ?_ fun compatible => ranked ⟨compatible.left, compatible.right⟩
    rintro ⟨types, passed⟩
    obtain ⟨left, right, leftRank, rightRank⟩ := ranks_of_arithmetic passed
    exact ranked ⟨(DType.rank_eq_ok_iff.mp leftRank).1, (DType.rank_eq_ok_iff.mp rightRank).1⟩

/-- Promotion is a join in the order of ranks. It succeeds for compatible types and no others; it
yields types of one category and one rank that is no lower than either; it leaves these types as they
are; and the sides do not matter. -/
theorem arithmetic_joins (lhs rhs : DType) :
    ((∃ types, arithmetic lhs rhs = .ok types) ↔ Compatible lhs rhs) ∧
      ∀ a b, arithmetic lhs rhs = .ok (a, b) →
        a.category = b.category ∧
        (∃ left right top, lhs.rank = .ok left ∧ rhs.rank = .ok right ∧
          a.rank = .ok top ∧ b.rank = .ok top ∧ left ≤ top ∧ right ≤ top) ∧
        arithmetic a b = .ok (a, b) ∧ arithmetic rhs lhs = .ok (b, a) := by
  refine ⟨arithmetic_succeeds_iff, fun a b passed => ?_⟩
  obtain ⟨left, right, top, leftRank, rightRank, first, second, above, alsoAbove, regular⟩ :=
    arithmetic_settles passed
  refine ⟨(meets_of_rank first second).category.symm,
    ⟨left, right, top, leftRank, rightRank, first, second, above, alsoAbove⟩, ?_,
    arithmetic_swap passed⟩
  rw [arithmetic_of_eq first second rfl, regular]

/-- An index beside a narrower fixed point type becomes a fixed point number as wide as the index. -/
theorem index_joins_fixed :
    Compatible .index (.fixed 8 4) ∧
      arithmetic .index (.fixed 8 4) = .ok (.fixed 64 4, .fixed 64 4) ∧
      arithmetic (.fixed 8 4) .index = .ok (.fixed 64 4, .fixed 64 4) :=
  have passed : arithmetic .index (.fixed 8 4) = .ok (.fixed 64 4, .fixed 64 4) := rfl
  ⟨(arithmetic_joins _ _).1.mp ⟨_, passed⟩, passed, ((arithmetic_joins _ _).2 _ _ passed).2.2.2⟩

end Promotion

end AffineKernel
